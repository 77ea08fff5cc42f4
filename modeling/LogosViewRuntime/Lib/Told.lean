import Mathlib.Data.List.Basic

/-! # What was told last

A signal tells the value of a key beside what a query of the key answers at that moment.  Who
follows the signal knows of each key what it told last (`Signal.last`), or a default.  The two
agree as long as what is told is right and no answer changes without being told
(`Signal.Agrees.extend`). -/

namespace Reactive

/-- A signal, as the observation that it makes and as it is read off one. -/
structure Signal (ω κ ν : Type*) where
  tell : κ → ν → ν → ω
  read : ω → Option (κ × ν × ν)
  read_eq_some : ∀ o k v now, read o = some (k, v, now) ↔ o = tell k v now

namespace Signal

variable {ω κ ν : Type*} [DecidableEq κ] (S : Signal ω κ ν) {k : κ} {tr os : List ω}

/-- What one observation tells about a key. -/
def about (k : κ) (o : ω) : Option ν :=
  (S.read o).bind fun told => if told.1 = k then some told.2.1 else none

/-- What was told last about a key. -/
def last (k : κ) (tr : List ω) : Option ν := (tr.filterMap (S.about k)).getLast?

theorem about_eq_some {o : ω} {v : ν} : S.about k o = some v ↔ ∃ now, o = S.tell k v now := by
  rw [about, Option.bind_eq_some_iff]
  constructor
  · rintro ⟨⟨k', v', now⟩, hread, he⟩
    obtain ⟨rfl, hv⟩ := Option.ite_none_right_eq_some.mp he
    obtain rfl := Option.some.inj hv
    exact ⟨now, (S.read_eq_some ..).mp hread⟩
  · rintro ⟨now, rfl⟩
    exact ⟨(k, v, now), (S.read_eq_some ..).mpr rfl, if_pos rfl⟩

theorem last_append (k : κ) (tr os : List ω) :
    S.last k (tr ++ os) = (S.last k os).or (S.last k tr) := by
  rw [last, List.filterMap_append, List.getLast?_append]
  rfl

theorem mem_of_last {v : ν} (h : S.last k os = some v) : ∃ now, S.tell k v now ∈ os := by
  obtain ⟨o, ho, habout⟩ := List.mem_filterMap.mp (List.mem_of_getLast? h)
  obtain ⟨now, rfl⟩ := S.about_eq_some.mp habout
  exact ⟨now, ho⟩

theorem last_eq_none_iff : S.last k os = none ↔ ∀ v now, S.tell k v now ∉ os := by
  rw [last, List.getLast?_eq_none_iff, List.filterMap_eq_nil_iff]
  constructor
  · intro h v now hm
    exact Option.some_ne_none v ((S.about_eq_some.mpr ⟨now, rfl⟩).symm.trans (h _ hm))
  · intro h o ho
    rw [Option.eq_none_iff_forall_ne_some]
    intro v hv
    obtain ⟨now, rfl⟩ := S.about_eq_some.mp hv
    exact h v now ho

theorem last_append_of_silent (h : ∀ v now, S.tell k v now ∉ os) :
    S.last k (tr ++ os) = S.last k tr := by
  rw [S.last_append, S.last_eq_none_iff.mpr h, Option.none_or]

/-- The signal never tells anything else than the query answers, and while this can be asked it
answers what was told last, with a default. -/
structure Agrees (unset : ν) (asked : Prop) (query : κ → ν) (tr : List ω) : Prop where
  emitted : ∀ k v now, S.tell k v now ∈ tr → v = now
  told : asked → ∀ k, query k = (S.last k tr).getD unset

namespace Agrees

variable {S} {unset : ν} {asked asked' : Prop} {query query' : κ → ν}

theorem initial (hunset : ∀ k, query k = unset) : S.Agrees unset asked query [] where
  emitted := by simp
  told _ k := hunset k

/-- What is told is right, and no answer changes without being told. -/
theorem extend (h : S.Agrees unset asked query tr)
    (hchanged : asked' → asked ∧ ∀ k, query' k = query k ∨ ∃ v now, S.tell k v now ∈ os)
    (hright : ∀ k v now, S.tell k v now ∈ os → v = now ∧ now = query' k) :
    S.Agrees unset asked' query' (tr ++ os) where
  emitted k v now hm :=
    (List.mem_append.mp hm).elim (h.emitted k v now) fun hm => (hright k v now hm).1
  told hasked k := by
    obtain ⟨hbefore, hchanged⟩ := hchanged hasked
    rw [S.last_append]
    cases hlast : S.last k os with
    | some v =>
        obtain ⟨now, hm⟩ := S.mem_of_last hlast
        obtain ⟨rfl, hnow⟩ := hright k v now hm
        exact hnow.symm
    | none =>
        obtain he | ⟨v, now, hm⟩ := hchanged k
        · rw [he, h.told hbefore k, Option.none_or]
        · exact absurd hm (S.last_eq_none_iff.mp hlast v now)

/-- Nothing is told and no answer changes. -/
theorem quiet (h : S.Agrees unset asked query tr) (hasked : asked' → asked)
    (hquery : ∀ k, query' k = query k) (hos : ∀ k v now, S.tell k v now ∉ os) :
    S.Agrees unset asked' query' (tr ++ os) :=
  h.extend (fun ha => ⟨hasked ha, fun k => .inl (hquery k)⟩) fun k v now hm =>
    absurd hm (hos k v now)

/-- Where nothing is told, the two agree afterwards exactly if no answer changed. -/
theorem silent_iff (h : S.Agrees unset asked query tr) (hasked : asked) (hasked' : asked')
    (hos : ∀ k v now, S.tell k v now ∉ os) :
    S.Agrees unset asked' query' (tr ++ os) ↔ ∀ k, query' k = query k := by
  refine ⟨fun h' k => ?_, fun hquery => h.quiet (fun _ => hasked) hquery hos⟩
  rw [h'.told hasked' k, h.told hasked k, S.last_append_of_silent (hos k)]

end Agrees

end Signal

end Reactive
