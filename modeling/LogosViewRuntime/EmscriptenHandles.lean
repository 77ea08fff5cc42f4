import LogosViewRuntime.EmscriptenPort
import Mathlib.Data.List.Induction
import Mathlib.Data.List.TakeWhile

/-! # Stale handles

JavaScript keeps handles for as long as it likes, and calls `logosMessagePortDeliver` with them
whenever it likes.  As long as an `int` counts the ports that are made, a handle is never given
again, so it is one port's for good: what it delivers is received by that port while the port is
there and open, and by nobody before or afterwards (`handle_is_one_port`). -/

namespace LogosViewRuntime.Emscripten

open Reactive
open Loopback (QByteArray)

/-! ### One handle in a run -/

/-- The handles that were given, in order. -/
def handles (tr : List Obs) : List ℕ := tr.filterMap fun
  | .constructed handle _ => some handle
  | _ => none

/-- What the port emitted. -/
def received (handle : ℕ) (tr : List Obs) : List QByteArray := tr.filterMap fun
  | .messageReceived h message => if h = handle then some message else none
  | _ => none

/-- What JavaScript delivered with the handle. -/
def deliveries (handle : ℕ) (tr : List Obs) : List QByteArray := tr.filterMap fun
  | .delivered h data => if h = handle then some data else none
  | _ => none

def begins (handle : ℕ) : Obs → Bool
  | .constructed h _ => h = handle
  | _ => false

def ends (handle : ℕ) : Obs → Bool
  | .closed h | .destroyed h => h = handle
  | _ => false

/-- The part of a run in which the port is there and open. -/
def life (handle : ℕ) (tr : List Obs) : List Obs :=
  (tr.dropWhile fun o => !begins handle o).takeWhile fun o => !ends handle o

/-- The port was made around that object, and neither closed nor destroyed since. -/
structure Open (handle port : ℕ) (tr : List Obs) : Prop where
  made : .constructed handle port ∈ tr
  unclosed : .closed handle ∉ tr
  there : .destroyed handle ∉ tr

/-- Each thing that happens at a port happens when it may: a port is made under a new handle,
starts once, posts, closes and receives while it is open, and goes once. -/
def InTurn (before : List Obs) : Obs → Prop
  | .constructed handle _ => handle = (handles before).length + 1
  | .published _ handle => ∃ port, Open handle port before
  | .attached handle port => Open handle port before ∧ .attached handle port ∉ before
  | .postMessage handle port _ | .jsClosed handle port => Open handle port before
  | .closed handle => ∃ port, Open handle port before
  | .destroyed handle => handle ∈ handles before ∧ .destroyed handle ∉ before
  | .messageReceived handle message => message ≠ [] ∧ (∃ port, Open handle port before) ∧
      before.getLast? = some (.delivered handle message)
  | .arrived .. | .delivered .. => True

/-- Fewer than `2 ^ 31` ports are made. -/
def Few (tr : List Obs) (_ : Image) : Action → Prop
  | .construct _ | .adopt .. => (handles tr).length + 1 < 2 ^ 31
  | .destroy _ | .start _ | .post .. | .close _ | .arrive .. | .dispatch _ | .deliver .. => True

instance (tr : List Obs) (s : Image) : (a : Action) → Decidable (Few tr s a)
  | .construct _ | .adopt .. => inferInstanceAs (Decidable ((handles tr).length + 1 < 2 ^ 31))
  | .destroy _ | .start _ | .post .. | .close _ | .arrive .. | .dispatch _ | .deliver .. =>
      inferInstanceAs (Decidable True)

@[simp] theorem handles_append (tr os : List Obs) : handles (tr ++ os) = handles tr ++ handles os :=
  List.filterMap_append

@[simp] theorem received_append (handle : ℕ) (tr os : List Obs) :
    received handle (tr ++ os) = received handle tr ++ received handle os := List.filterMap_append

@[simp] theorem deliveries_append (handle : ℕ) (tr os : List Obs) :
    deliveries handle (tr ++ os) = deliveries handle tr ++ deliveries handle os :=
  List.filterMap_append

variable {tr os : List Obs} {s s' : Image} {handle port : ℕ}

/-! ### The life of a port -/

theorem mem_handles : handle ∈ handles tr ↔ ∃ port, .constructed handle port ∈ tr := by
  simp only [handles, List.mem_filterMap]
  constructor
  · rintro ⟨o, ho, he⟩
    cases o with
    | constructed h port =>
        obtain rfl := Option.some.inj he
        exact ⟨port, ho⟩
    | _ => cases he
  · rintro ⟨port, hm⟩
    exact ⟨_, hm, rfl⟩

theorem Open.begins (h : Open handle port tr) : ∃ o ∈ tr, begins handle o = true :=
  ⟨_, h.made, by simp [Emscripten.begins]⟩

theorem Open.ends (h : Open handle port tr) : ∀ o ∈ tr, ends handle o = false := by
  intro o ho
  cases o with
  | closed h' =>
      simp only [Emscripten.ends, decide_eq_false_iff_not]
      rintro rfl
      exact h.unclosed ho
  | destroyed h' =>
      simp only [Emscripten.ends, decide_eq_false_iff_not]
      rintro rfl
      exact h.there ho
  | _ => rfl

theorem Open.snoc (h : Open handle port tr) {o : Obs} (ho : Emscripten.ends handle o = false) :
    Open handle port (tr ++ [o]) := by
  refine ⟨List.mem_append_left _ h.made, fun hm => ?_, fun hm => ?_⟩
  · obtain hm | hm := List.mem_append.mp hm
    · exact h.unclosed hm
    · obtain rfl := List.mem_singleton.mp hm
      simp [Emscripten.ends] at ho
  · obtain hm | hm := List.mem_append.mp hm
    · exact h.there hm
    · obtain rfl := List.mem_singleton.mp hm
      simp [Emscripten.ends] at ho

/-- What ends a port comes after what begins it. -/
theorem ends_after (horder : Machine.Each InTurn tr) {o : Obs} (ho : o ∈ tr)
    (hends : ends handle o = true) :
    ∃ before after, tr = before ++ o :: after ∧ ∃ o' ∈ before, begins handle o' = true := by
  obtain ⟨before, after, rfl⟩ := List.append_of_mem ho
  refine ⟨before, after, rfl, ?_⟩
  have hturn := horder before o after rfl
  cases o with
  | closed h =>
      obtain rfl : h = handle := of_decide_eq_true hends
      obtain ⟨port, hopen⟩ := hturn
      exact hopen.begins
  | destroyed h =>
      obtain rfl : h = handle := of_decide_eq_true hends
      obtain ⟨port, hmade⟩ := mem_handles.mp hturn.1
      exact ⟨_, hmade, by simp [begins]⟩
  | _ => cases hends

/-- A port that has not been made yet has no life. -/
theorem life_unborn (h : ∀ o ∈ tr, begins handle o = false) (os : List Obs) :
    life handle (tr ++ os) = life handle os := by
  rw [life, List.dropWhile_append_of_pos fun o ho => by simp [h o ho]]
  rfl

theorem dropWhile_born {p : Obs → Bool} {tr : List Obs} (h : ∃ o ∈ tr, p o = true)
    (os : List Obs) :
    ((tr ++ os).dropWhile fun o => !p o) = (tr.dropWhile fun o => !p o) ++ os := by
  obtain ⟨o, ho, hp⟩ := h
  rw [List.dropWhile_append, if_neg]
  rw [List.isEmpty_iff, List.dropWhile_eq_nil_iff]
  intro hall
  simpa [hp] using hall o ho

/-- The life of an open port goes on. -/
theorem life_open (hbegins : ∃ o ∈ tr, begins handle o = true)
    (hends : ∀ o ∈ tr, ends handle o = false) (os : List Obs) :
    life handle (tr ++ os) = life handle tr ++ os.takeWhile fun o => !ends handle o := by
  have hall : ∀ o ∈ tr.dropWhile (fun o => !begins handle o), (!ends handle o) = true := by
    intro o ho
    simp [hends o ((List.dropWhile_sublist _).subset ho)]
  rw [life, dropWhile_born hbegins, List.takeWhile_append_of_pos hall, life,
    List.takeWhile_eq_self_iff.mpr hall]

/-- A life that ended stays as it is. -/
theorem life_ended {before after : List Obs} {o : Obs}
    (hbegins : ∃ o ∈ before, begins handle o = true) (hends : ends handle o = true)
    (os : List Obs) :
    life handle (before ++ o :: after ++ os) = life handle (before ++ o :: after) := by
  rw [List.append_assoc, List.cons_append, life, dropWhile_born hbegins, life,
    dropWhile_born hbegins]
  simp only [List.takeWhile_append, List.takeWhile_cons, hends, Bool.not_true, Bool.false_eq_true,
    ↓reduceIte]

/-- Only while a port is open does its life go on. -/
theorem deliveries_life_snoc (horder : Machine.Each InTurn tr) (o : Obs) :
    deliveries handle (life handle (tr ++ [o])) = deliveries handle (life handle tr) ++
      open Classical in if ∃ port, Open handle port tr then deliveries handle [o] else [] := by
  split_ifs with hopen
  · obtain ⟨port, hopen⟩ := hopen
    rw [life_open hopen.begins hopen.ends, deliveries_append]
    cases hends : ends handle o with
    | false => simp [hends]
    | true =>
        cases o with
        | closed h => simp [hends, deliveries]
        | destroyed h => simp [hends, deliveries]
        | _ => cases hends
  · by_cases hbegins : ∃ o ∈ tr, begins handle o = true
    · -- it was made, so it ended
      have hended : ∃ o ∈ tr, ends handle o = true := by
        by_contra hnone
        obtain ⟨o, ho, hb⟩ := hbegins
        cases o with
        | constructed h port =>
            obtain rfl : h = handle := of_decide_eq_true hb
            refine hopen ⟨port, ho, fun hm => hnone ⟨_, hm, ?_⟩, fun hm => hnone ⟨_, hm, ?_⟩⟩
            · simp [ends]
            · simp [ends]
        | _ => cases hb
      obtain ⟨o', ho', hends⟩ := hended
      obtain ⟨before, after, rfl, hbefore⟩ := ends_after horder ho' hends
      rw [life_ended hbefore hends, List.append_nil]
    · have hunborn : ∀ o ∈ tr, begins handle o = false := by simpa using hbegins
      have hnil := life_unborn hunborn []
      rw [List.append_nil] at hnil
      rw [life_unborn hunborn, hnil]
      cases o with
      | constructed h port =>
          by_cases hh : h = handle <;> simp [life, begins, ends, deliveries, hh]
      | _ => simp [life, begins, deliveries]

/-! ### What was received -/

/-- Things happen in turn, and what was received is what was delivered to open ports. -/
structure Orderly (tr : List Obs) : Prop where
  order : Machine.Each InTurn tr
  received : ∀ handle, received handle tr =
    (deliveries handle (life handle tr)).filter (· ≠ [])

/-- Neither a delivery nor received. -/
def quiet : Obs → Bool
  | .delivered .. | .messageReceived .. => false
  | _ => true

namespace Orderly

theorem initial : Orderly [] := ⟨Machine.each_nil _, fun _ => rfl⟩

theorem quiet (h : Orderly tr) {o : Obs} (hturn : InTurn tr o)
    (ho : Emscripten.quiet o = true) : Orderly (tr ++ [o]) := by
  refine ⟨Machine.each_snoc.mpr ⟨h.order, hturn⟩, fun handle => ?_⟩
  have hnone : deliveries handle [o] = [] ∧ Emscripten.received handle [o] = [] := by
    cases o with
    | delivered _ _ | messageReceived _ _ => cases ho
    | _ => exact ⟨rfl, rfl⟩
  rw [received_append, deliveries_life_snoc h.order, hnone.1, hnone.2, ite_self, List.append_nil,
    List.append_nil, h.received]

/-- A delivery that nobody receives. -/
theorem dropped (h : Orderly tr) {data : QByteArray}
    (hdropped : (∀ port, ¬ Open handle port tr) ∨ data = []) :
    Orderly (tr ++ [.delivered handle data]) := by
  refine ⟨Machine.each_snoc.mpr ⟨h.order, trivial⟩, fun i => ?_⟩
  rw [received_append, deliveries_life_snoc h.order, List.filter_append, h.received,
    List.append_cancel_left_eq]
  split_ifs with hopen
  · obtain hnot | rfl := hdropped
    · have hne : handle ≠ i := by
        rintro rfl
        obtain ⟨port, hopen⟩ := hopen
        exact hnot port hopen
      simp [Emscripten.received, deliveries, hne]
    · by_cases hi : handle = i <;> simp [Emscripten.received, deliveries, hi]
  · rfl

/-- A delivery that is received on the spot. -/
theorem receives (h : Orderly tr) (hopen : Open handle port tr) {data : QByteArray}
    (hdata : data ≠ []) :
    Orderly (tr ++ [.delivered handle data, .messageReceived handle data]) := by
  have hdelivered : Machine.Each InTurn (tr ++ [.delivered handle data]) :=
    Machine.each_snoc.mpr ⟨h.order, trivial⟩
  have hsplit : tr ++ [.delivered handle data, .messageReceived handle data] =
      tr ++ [.delivered handle data] ++ [.messageReceived handle data] := by simp
  rw [hsplit]
  refine ⟨Machine.each_snoc.mpr ⟨hdelivered, hdata, ⟨port, hopen.snoc rfl⟩, by simp⟩, fun i => ?_⟩
  rw [received_append, received_append, deliveries_life_snoc hdelivered,
    deliveries_life_snoc h.order, List.filter_append, List.filter_append, h.received,
    List.append_assoc, List.append_assoc, List.append_cancel_left_eq]
  have hlast : deliveries i [Obs.messageReceived handle data] = [] := rfl
  rw [hlast, ite_self, List.filter_nil, List.append_nil]
  by_cases hi : handle = i
  · subst hi
    rw [if_pos ⟨port, hopen⟩]
    simp [Emscripten.received, deliveries, hdata]
  · split_ifs <;> simp [Emscripten.received, deliveries, hi]

end Orderly

/-! ### What the registry says of the run -/

/-- The registry has the ports that are there, as they are. -/
structure Registered (tr : List Obs) (s : Image) : Prop where
  handle : s.handle = (handles tr).length
  port : ∀ handle p, s.ports.lookup handle = some p → .constructed handle p.port ∈ tr ∧
    .destroyed handle ∉ tr ∧ (p.opened = true ↔ .closed handle ∉ tr) ∧
    (p.started = true ↔ .attached handle p.port ∈ tr)
  gone : ∀ handle, s.ports.lookup handle = none → handle ∈ handles tr → .destroyed handle ∈ tr

theorem Registered.initial : Registered [] {} where
  handle := rfl
  port _ _ h := by cases h
  gone _ _ h := by cases h

theorem Registered.open (h : Registered tr s) {p : Port} (hl : s.ports.lookup handle = some p)
    (hopened : p.opened = true) : Open handle p.port tr := by
  obtain ⟨hmade, hthere, hclosed, -⟩ := h.port handle p hl
  exact ⟨hmade, hclosed.mp hopened, hthere⟩

/-- A port that is not there, or closed, is not open. -/
theorem Registered.not_open (h : Registered tr s)
    (hp : ∀ p, s.ports.lookup handle = some p → p.opened = false) (port : ℕ) :
    ¬ Open handle port tr := by
  intro hopen
  cases hl : s.ports.lookup handle with
  | none => exact hopen.there (h.gone handle hl (mem_handles.mpr ⟨port, hopen.made⟩))
  | some p =>
      have hopened := (h.port handle p hl).2.2.1.mpr hopen.unclosed
      rw [hp p hl] at hopened
      cases hopened

/-- Handles are numbered. -/
theorem handles_eq (horder : Machine.Each InTurn tr) :
    handles tr = List.range' 1 (handles tr).length := by
  induction tr using List.reverseRecOn with
  | nil => rfl
  | append_singleton tr o ih =>
      obtain ⟨hbefore, hturn⟩ := Machine.each_snoc.mp horder
      have hnone : ∀ os : List ℕ, os = [] → handles tr ++ os =
          List.range' 1 (handles tr ++ os).length := by
        rintro os rfl
        rw [List.append_nil, ← ih hbefore]
      rw [handles_append]
      cases o with
      | constructed h port =>
          obtain rfl : h = (handles tr).length + 1 := hturn
          have hone : handles [Obs.constructed ((handles tr).length + 1) port] =
              [(handles tr).length + 1] := rfl
          rw [hone, List.length_append, List.length_singleton, List.range'_1_concat, ← ih hbefore,
            Nat.add_comm 1]
      | _ => exact hnone _ rfl

namespace Registered

theorem nextHandle (h : Registered tr s) (hfew : (handles tr).length + 1 < 2 ^ 31) :
    s.nextHandle = (handles tr).length + 1 := by
  rw [Image.nextHandle, h.handle, Nat.mod_eq_of_lt]
  omega

/-- A handle that was not given yet. -/
theorem fresh (h : Registered tr s) (hfew : (handles tr).length + 1 < 2 ^ 31)
    (horder : Machine.Each InTurn tr) : s.nextHandle ∉ handles tr := by
  rw [handles_eq horder, h.nextHandle hfew]
  simp only [List.mem_range'_1]
  omega

/-- What happened to a port happened under a handle that was given. -/
theorem notMem_of_fresh (horder : Machine.Each InTurn tr) (hfresh : handle ∉ handles tr) :
    .closed handle ∉ tr ∧ .destroyed handle ∉ tr ∧ ∀ port, .attached handle port ∉ tr := by
  have hbefore : ∀ {before after : List Obs} {o : Obs} {port : ℕ}, tr = before ++ o :: after →
      ¬ Open handle port before := by
    rintro before after o port rfl hopen
    exact hfresh (by rw [handles_append]; exact List.mem_append_left _ (mem_handles.mpr ⟨_, hopen.made⟩))
  refine ⟨fun hm => ?_, fun hm => ?_, fun port hm => ?_⟩
  · obtain ⟨before, after, he⟩ := List.append_of_mem hm
    obtain ⟨port, hopen⟩ := horder before _ after he
    exact hbefore he hopen
  · obtain ⟨before, after, he⟩ := List.append_of_mem hm
    obtain ⟨hmem, -⟩ := horder before _ after he
    exact hfresh (by rw [he, handles_append]; exact List.mem_append_left _ hmem)
  · obtain ⟨before, after, he⟩ := List.append_of_mem hm
    exact hbefore he (horder before _ after he).1

/-- A step that is no port's beginning, start or end. -/
theorem quiet (h : Registered tr s) (hhandle : s'.handle = s.handle) (hports : s'.ports = s.ports)
    (hos : ∀ o ∈ os, ∀ handle port, o ≠ .constructed handle port ∧ o ≠ .attached handle port ∧
      o ≠ .closed handle ∧ o ≠ .destroyed handle) : Registered (tr ++ os) s' := by
  have hhandles : handles os = [] := by
    rw [handles, List.filterMap_eq_nil_iff]
    intro o ho
    cases o with
    | constructed handle port => exact absurd rfl (hos _ ho handle port).1
    | _ => rfl
  refine ⟨by rw [hhandle, handles_append, hhandles, List.append_nil, h.handle],
    fun handle p hl => ?_, fun handle hl hm => ?_⟩
  · obtain ⟨hmade, hthere, hclosed, hstarted⟩ := h.port handle p (hports ▸ hl)
    refine ⟨List.mem_append_left _ hmade, fun hm => ?_, hclosed.trans (not_congr ?_),
      hstarted.trans ?_⟩
    · obtain hm | hm := List.mem_append.mp hm
      · exact hthere hm
      · exact (hos _ hm handle 0).2.2.2 rfl
    · rw [List.mem_append, or_iff_left fun hm => (hos _ hm handle 0).2.2.1 rfl]
    · rw [List.mem_append, or_iff_left fun hm => (hos _ hm handle p.port).2.1 rfl]
  · rw [handles_append, hhandles, List.append_nil] at hm
    exact List.mem_append_left _ (h.gone handle (hports ▸ hl) hm)

/-- The JavaScript objects are none of it. -/
theorem setJs (h : Registered tr s) (port : ℕ) (q : JsPort) : Registered tr (s.setJs port q) :=
  ⟨h.handle, h.port, h.gone⟩

theorem construct (h : Registered tr s) (hfew : (handles tr).length + 1 < 2 ^ 31)
    (horder : Machine.Each InTurn tr) (port : ℕ) :
    Registered (tr ++ (s.construct port).2) (s.construct port).1 := by
  have hfresh := h.fresh hfew horder
  obtain ⟨hclosed, hdestroyed, hattached⟩ := notMem_of_fresh horder hfresh
  refine ⟨?_, fun handle p hl => ?_, fun handle hl hm => ?_⟩
  · rw [handles_append, List.length_append]
    exact h.nextHandle hfew
  · simp only [Image.construct, Image.setPort] at hl ⊢
    by_cases hh : handle = s.nextHandle
    · subst hh
      rw [AList.lookup_insert] at hl
      obtain rfl := Option.some.inj hl
      simp [hclosed, hdestroyed, hattached]
    · rw [AList.lookup_insert_ne hh] at hl
      obtain ⟨hmade, hthere, hc, hs⟩ := h.port handle p hl
      simp [hmade, hthere, hc, hs]
  · simp only [Image.construct, Image.setPort] at hl hm ⊢
    by_cases hh : handle = s.nextHandle
    · subst hh
      rw [AList.lookup_insert] at hl
      cases hl
    · rw [AList.lookup_insert_ne hh] at hl
      rw [handles_append, List.mem_append] at hm
      refine List.mem_append_left _ (h.gone handle hl (hm.resolve_right ?_))
      simpa [handles] using hh

theorem destroy (h : Registered tr s) {p : Port} (hp : s.ports.lookup handle = some p) :
    Registered (tr ++ (s.destroy handle).2) (s.destroy handle).1 := by
  refine ⟨?_, fun handle' p' hl => ?_, fun handle' hl hm => ?_⟩
  · rw [handles_append, List.length_append, ← h.handle]
    rfl
  · simp only [Image.destroy] at hl ⊢
    by_cases hh : handle' = handle
    · subst hh
      rw [AList.lookup_erase] at hl
      cases hl
    · rw [AList.lookup_erase_ne hh] at hl
      obtain ⟨hmade, hthere, hc, hs⟩ := h.port handle' p' hl
      simp [hmade, hthere, hc, hs, hh]
  · simp only [Image.destroy] at hl hm ⊢
    by_cases hh : handle' = handle
    · simp [hh]
    · rw [AList.lookup_erase_ne hh] at hl
      rw [handles_append, List.mem_append] at hm
      exact List.mem_append_left _ (h.gone handle' hl (hm.resolve_right (by simp [handles])))

/-- A port is written back with what happened to it. -/
theorem touch (h : Registered tr s) {p : Port} (p' : Port) (hp : s.ports.lookup handle = some p)
    (hport : p'.port = p.port) (hhandle : s'.handle = s.handle)
    (hports : s'.ports = s.ports.insert handle p')
    (hos : ∀ o ∈ os, ∀ handle' port, o ≠ .constructed handle' port ∧ o ≠ .destroyed handle' ∧
      (handle' ≠ handle → o ≠ .attached handle' port ∧ o ≠ .closed handle'))
    (hopened : p'.opened = true ↔ p.opened = true ∧ .closed handle ∉ os)
    (hstarted : p'.started = true ↔ p.started = true ∨ .attached handle p.port ∈ os) :
    Registered (tr ++ os) s' := by
  have hhandles : handles os = [] := by
    rw [handles, List.filterMap_eq_nil_iff]
    intro o ho
    cases o with
    | constructed handle port => exact absurd rfl (hos _ ho handle port).1
    | _ => rfl
  have hthere' : ∀ i, .destroyed i ∉ tr → .destroyed i ∉ tr ++ os := by
    intro i hthere hm
    obtain hm | hm := List.mem_append.mp hm
    · exact hthere hm
    · exact (hos _ hm i 0).2.1 rfl
  refine ⟨by rw [hhandle, handles_append, hhandles, List.append_nil, h.handle],
    fun handle' q hl => ?_, fun handle' hl hm => ?_⟩
  · rw [hports] at hl
    by_cases hh : handle' = handle
    · subst hh
      rw [AList.lookup_insert] at hl
      obtain rfl := Option.some.inj hl
      obtain ⟨hmade, hthere, hc, hs⟩ := h.port handle' p hp
      rw [hport]
      exact ⟨List.mem_append_left _ hmade, hthere' _ hthere,
        by rw [hopened, hc, List.mem_append, not_or], by rw [hstarted, hs, List.mem_append]⟩
    · rw [AList.lookup_insert_ne hh] at hl
      obtain ⟨hmade, hthere, hc, hs⟩ := h.port handle' q hl
      refine ⟨List.mem_append_left _ hmade, hthere' _ hthere, ?_, ?_⟩
      · rw [hc, List.mem_append, or_iff_left fun hm => ((hos _ hm handle' 0).2.2 hh).2 rfl]
      · rw [hs, List.mem_append, or_iff_left fun hm => ((hos _ hm handle' q.port).2.2 hh).1 rfl]
  · rw [hports] at hl
    rw [handles_append, hhandles, List.append_nil] at hm
    by_cases hh : handle' = handle
    · subst hh
      rw [AList.lookup_insert] at hl
      cases hl
    · rw [AList.lookup_insert_ne hh] at hl
      exact List.mem_append_left _ (h.gone handle' hl hm)

end Registered

/-! ### Whole runs -/

/-- Both at once. -/
structure Sound (tr : List Obs) (s : Image) : Prop extends Orderly tr, Registered tr s

namespace Sound

/-- JavaScript delivers something. -/
theorem deliverFromJs (h : Sound tr s) (handle : ℕ) (data : QByteArray) (hhandle : s'.handle = s.handle)
    (hports : s'.ports = s.ports) : Sound (tr ++ s.deliverFromJs handle data) s' := by
  have hregistered : Registered (tr ++ s.deliverFromJs handle data) s' := by
    refine h.toRegistered.quiet hhandle hports fun o ho i port => ?_
    unfold Image.deliverFromJs at ho
    split at ho
    · simp only [List.mem_singleton] at ho
      subst ho
      simp
    · split_ifs at ho <;> simp only [List.mem_cons, List.not_mem_nil, or_false] at ho
      · subst ho
        simp
      · subst ho
        simp
      · obtain rfl | rfl := ho <;> simp
  refine ⟨?_, hregistered⟩
  unfold Image.deliverFromJs
  split
  · rename_i hl
    exact h.toOrderly.dropped (.inl (h.toRegistered.not_open fun p hp => by simp [hl] at hp))
  · rename_i p hl
    split_ifs with hopened hdata
    · refine h.toOrderly.dropped (.inl (h.toRegistered.not_open fun p' hp' => ?_))
      obtain rfl := Option.some.inj (hl.symm.trans hp')
      simpa using hopened
    · exact h.toOrderly.dropped (.inr hdata)
    · exact h.toOrderly.receives (h.toRegistered.open hl (by simpa using hopened)) hdata

theorem construct (h : Sound tr s) (hfew : (handles tr).length + 1 < 2 ^ 31) (port : ℕ) :
    Sound (tr ++ (s.construct port).2) (s.construct port).1 :=
  ⟨h.toOrderly.quiet (h.toRegistered.nextHandle hfew) rfl,
    h.toRegistered.construct hfew h.order port⟩

theorem adopt (h : Sound tr s) (hfew : (handles tr).length + 1 < 2 ^ 31) (name : String)
    (port : ℕ) : Sound (tr ++ (s.adopt name port).2) (s.adopt name port).1 := by
  have hconstructed := h.construct hfew port
  have hopen : Open s.nextHandle port (tr ++ (s.construct port).2) :=
    hconstructed.toRegistered.open (p := { port }) (AList.lookup_insert _) rfl
  have hsplit : tr ++ (s.adopt name port).2 =
      tr ++ (s.construct port).2 ++ [.published name s.nextHandle] := by
    rw [Image.adopt, List.append_assoc]
  rw [hsplit]
  exact ⟨hconstructed.toOrderly.quiet ⟨port, hopen⟩ rfl,
    hconstructed.toRegistered.quiet rfl rfl (by simp)⟩

theorem destroy (h : Sound tr s) {p : Port} (hp : s.ports.lookup handle = some p) :
    Sound (tr ++ (s.destroy handle).2) (s.destroy handle).1 := by
  obtain ⟨hmade, hthere, -⟩ := h.port handle p hp
  exact ⟨h.toOrderly.quiet ⟨mem_handles.mpr ⟨_, hmade⟩, hthere⟩ rfl, h.toRegistered.destroy hp⟩

theorem start (h : Sound tr s) {p : Port} (hp : s.ports.lookup handle = some p) :
    Sound (tr ++ (s.start handle p).2) (s.start handle p).1 := by
  unfold Image.start
  split_ifs with hno
  · rw [List.append_nil]
    exact h
  · simp only [Bool.or_eq_true, Bool.not_eq_true', not_or, Bool.not_eq_true,
      Bool.not_eq_false] at hno
    obtain ⟨hmade, hthere, -, hstarted⟩ := h.port handle p hp
    refine ⟨h.toOrderly.quiet ⟨h.toRegistered.open hp hno.2, fun hm => ?_⟩ rfl,
      h.toRegistered.touch { p with started := true } hp rfl rfl rfl ?_ ?_ ?_⟩
    · rw [hstarted.mpr hm] at hno
      cases hno.1
    · intro o ho i port
      obtain rfl := List.mem_singleton.mp ho
      exact ⟨by simp, by simp, fun hi => ⟨by simp [Ne.symm hi], by simp⟩⟩
    · simp [Image.attach]
    · simp [Image.attach]

theorem post (h : Sound tr s) {p : Port} (hp : s.ports.lookup handle = some p)
    (message : QByteArray) :
    Sound (tr ++ (s.post handle p message).2) (s.post handle p message).1 := by
  unfold Image.post
  split_ifs with hclosed
  · rw [List.append_nil]
    exact h
  · exact ⟨h.toOrderly.quiet (h.toRegistered.open hp (by simpa using hclosed)) rfl,
      h.toRegistered.quiet rfl rfl (by simp)⟩

theorem close (h : Sound tr s) {p : Port} (hp : s.ports.lookup handle = some p)
    (hasClose : ℕ → Bool) :
    Sound (tr ++ (s.close hasClose handle p).2) (s.close hasClose handle p).1 := by
  unfold Image.close
  split_ifs with hclosed hjs
  · rw [List.append_nil]
    exact h
  all_goals
    have hopen := h.toRegistered.open hp (by simpa using hclosed)
    refine ⟨?_, h.toRegistered.touch { p with opened := false } hp rfl rfl rfl ?_ ?_ ?_⟩
  · have hcalled : Orderly (tr ++ [.jsClosed handle p.port]) := h.toOrderly.quiet hopen rfl
    have := hcalled.quiet (o := .closed handle) ⟨p.port, hopen.snoc rfl⟩ rfl
    simpa using this
  · intro o ho i port
    simp only [List.singleton_append, List.mem_cons, List.not_mem_nil, or_false] at ho
    obtain rfl | rfl := ho
    · simp
    · exact ⟨by simp, by simp, fun hi => ⟨by simp, by simp [Ne.symm hi]⟩⟩
  · simp
  · simp
  · exact h.toOrderly.quiet ⟨p.port, hopen⟩ rfl
  · intro o ho i port
    obtain rfl := List.mem_singleton.mp ho
    exact ⟨by simp, by simp, fun hi => ⟨by simp, by simp [Ne.symm hi]⟩⟩
  · simp
  · simp

/-- One step. -/
theorem step {hasStart hasClose : ℕ → Bool} {a : Action} (h : Sound tr s) (hfew : Few tr s a)
    (hs : step hasStart hasClose s a = some (s', os)) : Sound (tr ++ os) s' := by
  cases a with
  | construct port =>
      obtain ⟨rfl, rfl⟩ := Prod.mk.inj (Option.some.inj hs)
      exact h.construct hfew port
  | adopt name port =>
      obtain ⟨rfl, rfl⟩ := Prod.mk.inj (Option.some.inj hs)
      exact h.adopt hfew name port
  | destroy handle =>
      obtain ⟨p, hp, he⟩ := Option.map_eq_some_iff.mp hs
      obtain ⟨rfl, rfl⟩ := Prod.mk.inj he
      exact h.destroy hp
  | start handle =>
      obtain ⟨p, hp, he⟩ := Option.map_eq_some_iff.mp hs
      have hstart := h.start hp
      rwa [he] at hstart
  | post handle message =>
      obtain ⟨p, hp, he⟩ := Option.map_eq_some_iff.mp hs
      have hpost := h.post hp message
      rwa [he] at hpost
  | close handle =>
      obtain ⟨p, hp, he⟩ := Option.map_eq_some_iff.mp hs
      have hclose := h.close hp hasClose
      rwa [he] at hclose
  | arrive port message =>
      obtain ⟨rfl, rfl⟩ := Prod.mk.inj (Option.some.inj hs)
      exact ⟨h.toOrderly.quiet trivial rfl, h.toRegistered.quiet rfl rfl (by simp)⟩
  | dispatch port =>
      obtain ⟨-, hs⟩ := Option.ite_none_left_eq_some.mp hs
      split at hs
      · cases hs
      · rename_i message queue hqueue
        obtain ⟨rfl, rfl⟩ := Prod.mk.inj (Option.some.inj hs)
        split
        · rw [List.append_nil]
          exact ⟨h.toOrderly, h.toRegistered.setJs port _⟩
        · exact h.deliverFromJs _ message rfl rfl
  | deliver handle data =>
      obtain ⟨rfl, rfl⟩ := Prod.mk.inj (Option.some.inj hs)
      exact h.deliverFromJs handle data rfl rfl

end Sound

variable {hasStart hasClose : ℕ → Bool}

theorem run_sound (h : (machine hasStart hasClose).Run Few tr s) : Sound tr s :=
  h.invariant ⟨Orderly.initial, Registered.initial⟩ fun hi hfew hs => hi.step hfew hs

/-- **A handle is one port's for good.**  In every run in which fewer than `2 ^ 31` ports are made,
whatever the page delivers with whatever handle: the handles are given in order and never again,
everything that happens at a port happens in turn, and a port receives, in order and at once, the
messages that JavaScript delivers with its handle from its construction until it is closed or
destroyed, except empty ones, and no others. -/
theorem handle_is_one_port (h : (machine hasStart hasClose).Run Few tr s) :
    handles tr = List.range' 1 s.handle ∧ Machine.Each InTurn tr ∧
      ∀ handle, received handle tr = (deliveries handle (life handle tr)).filter (· ≠ []) := by
  have hsound := run_sound h
  refine ⟨?_, hsound.order, hsound.received⟩
  rw [hsound.handle]
  exact handles_eq hsound.order

/-- A page that goes on delivering with the handles of a closed and of a destroyed port. -/
theorem stale_handles_deliver_nothing : ∃ tr s,
    (machine (fun _ => true) fun _ => true).Run Few tr s ∧
    received 1 tr = [[1], [2]] ∧ received 2 tr = [] ∧ received 3 tr = [[9]] ∧
    deliveries 2 tr = [[5], [6]] ∧ handles tr = [1, 2, 3] ∧
    ∀ handle, received handle tr = (deliveries handle (life handle tr)).filter (· ≠ []) := by
  obtain ⟨tr, s, h, hone, htwo, hthree, hdelivered, hhandles⟩ := Machine.exec_any
    (M := machine (fun _ => true) fun _ => true) (G := Few)
    [.adopt "backend" 0, .arrive 0 [1], .start 1, .dispatch 0, .deliver 1 [], .deliver 1 [2],
      .close 1, .deliver 1 [3], .construct 0, .destroy 2, .deliver 2 [5], .construct 1,
      .deliver 2 [6], .deliver 3 [9]]
    (p := fun tr _ => received 1 tr = [[1], [2]] ∧ received 2 tr = [] ∧ received 3 tr = [[9]] ∧
      deliveries 2 tr = [[5], [6]] ∧ handles tr = [1, 2, 3]) (by decide +kernel)
  exact ⟨tr, s, h, hone, htwo, hthree, hdelivered, hhandles, (handle_is_one_port h).2.2⟩

end LogosViewRuntime.Emscripten
