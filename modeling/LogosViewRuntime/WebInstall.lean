import LogosViewRuntime.WebRuntime

/-! # Views that replace views

An installation removes the view that it replaces and adopts its own afterwards.  Code that runs in
between may install a view of the same name: the installation then overwrites it, so that nothing
tracks it any more and nothing ever destroys it, and its name is listed twice.  Whenever no call is
under way the installed views are in order in exactly the runs in which no installation finds its
name taken after its removal (`settled_iff_vacant`). -/

namespace LogosViewRuntime.WebRuntime

open Reactive

/-- The steps that were taken. -/
abbrev History := List (Machine.Taken Runtime Action Obs)

/-! ### The property and its condition -/

/-- The view and the context of that number were installed. -/
def Installed (h : History) (n : ℕ) : Prop :=
  ∃ m ∈ h, ∃ moduleName, .moduleViewInstalled moduleName n ∈ m.os

/-- The list and the views agree, and of the views that were installed only those that are tracked
are left. -/
structure Settled (h : History) (s : Runtime) : Prop where
  nodup : s.installedModules.Nodup
  listed : ∀ moduleName, moduleName ∈ s.installedModules ↔ moduleName ∈ s.views
  destroyed : ∀ n, Installed h n → (∀ moduleName, s.views.lookup moduleName ≠ some n) →
    s.viewAlive n = false ∧ s.contextAlive n = false

/-- The installation whose removal is over. -/
def Frame.replacing : Frame → Option (String × ℕ)
  | .removed install => install
  | _ => none

/-- The name of an installation is not taken when its removal is over. -/
def Vacant (s : Runtime) : Action → Prop
  | .returned => ∀ frame ∈ s.stack.head?, ∀ install ∈ frame.replacing, install.1 ∉ s.views
  | _ => True

def isCall : Action → Bool
  | .installModuleView .. | .removeModuleView _ => true
  | .created | .createFailed _ | .returned => false

/-- What happens until the stack is `base` again while nothing is called. -/
inductive Alone (base : List Frame) : Runtime → List Obs → Runtime → Prop
  | ended {s : Runtime} : s.stack = base → Alone base s [] s
  | step {s s' s'' : Runtime} {a : Action} {os os' : List Obs} : s.stack ≠ base →
      isCall a = false → step s a = some (s', os) → Alone base s' os' s'' →
      Alone base s (os ++ os') s''

/-- An installation that fails and whose documents and slots call nothing leaves the views and their
order alone. -/
def FailsCleanly (s : Runtime) : Prop :=
  ∀ moduleName compileError s₁ os₁ os₂ s₂ error,
    step s (.installModuleView moduleName compileError) = some (s₁, os₁) →
    Alone s.stack s₁ os₂ s₂ → .moduleViewFailed moduleName error ∈ os₁ ++ os₂ →
      s₂.views = s.views ∧ s₂.order = s.order

/-! ### What the frames hold -/

namespace Frame

/-- The view that is being destroyed. -/
def dying : Frame → Option ℕ
  | .destroying n _ => some n
  | _ => none

/-- The installation that goes on after a removal. -/
def adopting : Frame → Option (String × ℕ)
  | .destroying _ install => install
  | .removed install => install
  | _ => none

/-- The number that has not been installed yet. -/
def pending : Frame → Option ℕ
  | .creating _ n => some n
  | frame => frame.adopting.map (·.2)

theorem pending_of_adopting {frame : Frame} {install : String × ℕ}
    (h : frame.adopting = some install) : frame.pending = some install.2 := by
  cases frame with
  | destroying n install' =>
      show ((destroying n install').adopting.map (·.2)) = _
      rw [h]
      rfl
  | removed install' =>
      show ((removed install').adopting.map (·.2)) = _
      rw [h]
      rfl
  | _ => cases h

end Frame

/-- No view is lost: each that was installed (`I`) is tracked, about to be destroyed or destroyed,
and the numbers that are not installed yet are nobody else's. -/
structure Sound (I : ℕ → Prop) (s : Runtime) : Prop where
  nodup : s.order.Nodup
  listed : ∀ moduleName, moduleName ∈ s.order ↔ moduleName ∈ s.views
  unique : ∀ name name' n, s.views.lookup name = some n → s.views.lookup name' = some n →
    name' = name
  tracked : ∀ name n, s.views.lookup name = some n → I n ∧ s.viewAlive n = true ∧
    ∀ frame ∈ s.stack, frame.dying ≠ some n
  dying : ∀ frame ∈ s.stack, ∀ n, frame.dying = some n → I n
  installed : ∀ n, I n → n < s.created ∧ ((∃ name, s.views.lookup name = some n) ∨
    (∃ frame ∈ s.stack, frame.dying = some n) ∨ s.viewAlive n = false ∧ s.contextAlive n = false)
  pending : ∀ frame ∈ s.stack, ∀ n, frame.pending = some n → n < s.created ∧ ¬ I n
  distinct : (s.stack.filterMap Frame.pending).Nodup
  alive : ∀ frame ∈ s.stack, ∀ install, frame.adopting = some install → s.viewAlive install.2 = true

/-- A number that is about to be installed. -/
structure Ready (I : ℕ → Prop) (n : ℕ) (s : Runtime) : Prop where
  lt : n < s.created
  new : ¬ I n
  alone : n ∉ s.stack.filterMap Frame.pending
  alive : s.viewAlive n = true

/-- A view that is alive, and that nothing tracks or will ever destroy. -/
structure Leaked (n : ℕ) (s : Runtime) : Prop where
  lt : n < s.created
  alive : s.viewAlive n = true
  untracked : ∀ name, s.views.lookup name ≠ some n
  frames : ∀ frame ∈ s.stack, frame.dying ≠ some n ∧ frame.pending ≠ some n

variable {I I' : ℕ → Prop} {s s' : Runtime} {n : ℕ} {moduleName error : String} {frame : Frame}
  {frames : List Frame}

theorem Sound.congr (h : Sound I s) (hI : ∀ n, I' n ↔ I n) : Sound I' s := by
  obtain rfl : I' = I := funext fun n => propext (hI n)
  exact h

/-- A frame that destroys nothing is popped. -/
theorem Sound.pop (h : Sound I { s with stack := frame :: frames }) (hdying : frame.dying = none) :
    Sound I { s with stack := frames } where
  nodup := h.nodup
  listed := h.listed
  unique := h.unique
  tracked name n hn := by
    obtain ⟨hI, halive, hframes⟩ := h.tracked name n hn
    exact ⟨hI, halive, fun f hf => hframes f (List.mem_cons_of_mem _ hf)⟩
  dying f hf := h.dying f (List.mem_cons_of_mem _ hf)
  installed n hn := by
    obtain ⟨hlt, htracked | ⟨f, hf, hf'⟩ | hdestroyed⟩ := h.installed n hn
    · exact ⟨hlt, .inl htracked⟩
    · obtain rfl | hf := List.mem_cons.mp hf
      · rw [hdying] at hf'
        cases hf'
      · exact ⟨hlt, .inr (.inl ⟨f, hf, hf'⟩)⟩
    · exact ⟨hlt, .inr (.inr hdestroyed)⟩
  pending f hf := h.pending f (List.mem_cons_of_mem _ hf)
  distinct := by
    have := h.distinct
    rw [List.filterMap_cons] at this
    cases hpending : frame.pending with
    | none => rwa [hpending] at this
    | some n =>
        rw [hpending] at this
        exact (List.nodup_cons.mp this).2
  alive f hf := h.alive f (List.mem_cons_of_mem _ hf)

/-- A frame that holds nothing is pushed. -/
theorem Sound.push (h : Sound I s) (hdying : frame.dying = none) (hpending : frame.pending = none) :
    Sound I (s.push frame) where
  nodup := h.nodup
  listed := h.listed
  unique := h.unique
  tracked name n hn := by
    obtain ⟨hI, halive, hframes⟩ := h.tracked name n hn
    refine ⟨hI, halive, List.forall_mem_cons.mpr ⟨?_, hframes⟩⟩
    simp [hdying]
  dying := List.forall_mem_cons.mpr ⟨by simp [hdying], h.dying⟩
  installed n hn := by
    obtain ⟨hlt, htracked | ⟨f, hf, hf'⟩ | hdestroyed⟩ := h.installed n hn
    · exact ⟨hlt, .inl htracked⟩
    · exact ⟨hlt, .inr (.inl ⟨f, List.mem_cons_of_mem _ hf, hf'⟩)⟩
    · exact ⟨hlt, .inr (.inr hdestroyed)⟩
  pending := List.forall_mem_cons.mpr ⟨by simp [hpending], h.pending⟩
  distinct := by
    rw [Runtime.push, List.filterMap_cons, hpending]
    exact h.distinct
  alive := by
    refine List.forall_mem_cons.mpr ⟨fun install hinstall => ?_, h.alive⟩
    rw [Frame.pending_of_adopting hinstall] at hpending
    cases hpending

/-- The next number starts its document. -/
theorem Sound.begin (h : Sound I s) :
    Sound I ({ s with
      created := s.created + 1
      contextAlive := Function.update s.contextAlive s.created true }.push
        (.creating moduleName s.created)) where
  nodup := h.nodup
  listed := h.listed
  unique := h.unique
  tracked name n hn := by
    obtain ⟨hI, halive, hframes⟩ := h.tracked name n hn
    exact ⟨hI, halive, List.forall_mem_cons.mpr ⟨by simp [Frame.dying], hframes⟩⟩
  dying := List.forall_mem_cons.mpr ⟨by simp [Frame.dying], h.dying⟩
  installed n hn := by
    obtain ⟨hlt, hrest⟩ := h.installed n hn
    refine ⟨Nat.lt_succ_of_lt hlt, ?_⟩
    obtain htracked | ⟨f, hf, hf'⟩ | ⟨hview, hcontext⟩ := hrest
    · exact .inl htracked
    · exact .inr (.inl ⟨f, List.mem_cons_of_mem _ hf, hf'⟩)
    · refine .inr (.inr ⟨hview, ?_⟩)
      exact (Function.update_of_ne (Nat.ne_of_lt hlt) ..).trans hcontext
  pending := by
    refine List.forall_mem_cons.mpr ⟨fun n hn => ?_, fun f hf n hn => ?_⟩
    · obtain rfl := Option.some.inj hn
      exact ⟨Nat.lt_succ_self _, fun hI => Nat.lt_irrefl _ (h.installed _ hI).1⟩
    · obtain ⟨hlt, hnew⟩ := h.pending f hf n hn
      exact ⟨Nat.lt_succ_of_lt hlt, hnew⟩
  distinct := by
    refine List.nodup_cons.mpr ⟨fun hmem => ?_, h.distinct⟩
    obtain ⟨f, hf, hn⟩ := List.mem_filterMap.mp hmem
    exact Nat.lt_irrefl _ (h.pending f hf _ hn).1
  alive := List.forall_mem_cons.mpr ⟨by simp [Frame.adopting], h.alive⟩

/-- The frame on top holds a number that nothing else holds. -/
theorem Sound.top (h : Sound I { s with stack := frame :: frames })
    (hpending : frame.pending = some n) :
    n < s.created ∧ ¬ I n ∧ n ∉ frames.filterMap Frame.pending := by
  obtain ⟨hlt, hnew⟩ := h.pending frame List.mem_cons_self n hpending
  have hdistinct := h.distinct
  rw [List.filterMap_cons, hpending] at hdistinct
  exact ⟨hlt, hnew, (List.nodup_cons.mp hdistinct).1⟩

/-- A document has become a view. -/
theorem Sound.create (h : Sound I { s with stack := .creating moduleName n :: frames }) :
    Sound I { s with stack := frames, viewAlive := Function.update s.viewAlive n true } ∧
    Ready I n { s with stack := frames, viewAlive := Function.update s.viewAlive n true } := by
  obtain ⟨hlt, hnew, halone⟩ := h.top rfl
  have hpop : Sound I { s with stack := frames } := h.pop rfl
  have hkept : ∀ m, s.viewAlive m = true → Function.update s.viewAlive n true m = true := by
    intro m hm
    obtain rfl | hne := eq_or_ne m n
    · rw [Function.update_self]
    · rwa [Function.update_of_ne hne]
  constructor
  · exact {
      nodup := hpop.nodup
      listed := hpop.listed
      unique := hpop.unique
      tracked := fun name m hm => by
        obtain ⟨hI, halive, hframes⟩ := hpop.tracked name m hm
        exact ⟨hI, hkept m halive, hframes⟩
      dying := hpop.dying
      installed := fun m hm => by
        obtain ⟨hltm, htracked | hdying | ⟨hview, hcontext⟩⟩ := hpop.installed m hm
        · exact ⟨hltm, .inl htracked⟩
        · exact ⟨hltm, .inr (.inl hdying)⟩
        · refine ⟨hltm, .inr (.inr ⟨?_, hcontext⟩)⟩
          have hne : m ≠ n := by
            rintro rfl
            exact hnew hm
          exact (Function.update_of_ne hne ..).trans hview
      pending := hpop.pending
      distinct := hpop.distinct
      alive := fun f hf install hinstall => hkept _ (hpop.alive f hf install hinstall) }
  · exact ⟨hlt, hnew, halone, Function.update_self ..⟩

/-- A view is tracked no more and about to be destroyed, maybe for another one. -/
theorem Sound.remove (h : Sound I s) (hn : s.views.lookup moduleName = some n)
    {install : Option (String × ℕ)} (hinstall : ∀ i ∈ install, Ready I i.2 s) :
    Sound I ({ s with
      views := s.views.erase moduleName
      order := s.order.filter (· ≠ moduleName) }.push (.destroying n install)) := by
  have hready : ∀ m, (Frame.destroying n install).pending = some m → Ready I m s := by
    intro m hm
    obtain ⟨i, hi, rfl⟩ := Option.map_eq_some_iff.mp hm
    exact hinstall i hi
  have hleft : ∀ name m, (s.views.erase moduleName).lookup name = some m →
      name ≠ moduleName ∧ s.views.lookup name = some m := by
    intro name m hm
    have hne : name ≠ moduleName := by
      rintro rfl
      rw [AList.lookup_erase] at hm
      cases hm
    rw [AList.lookup_erase_ne hne] at hm
    exact ⟨hne, hm⟩
  exact {
    nodup := h.nodup.filter _
    listed := fun name => by
      have : name ∈ s.order.filter (· ≠ moduleName) ↔ name ∈ s.views.erase moduleName := by
        rw [List.mem_filter, h.listed, AList.mem_erase, decide_eq_true_eq, and_comm]
      exact this
    unique := fun name name' m hm hm' => h.unique name name' m (hleft name m hm).2
      (hleft name' m hm').2
    tracked := fun name m hm => by
      obtain ⟨hne, hm⟩ := hleft name m hm
      obtain ⟨hI, halive, hframes⟩ := h.tracked name m hm
      refine ⟨hI, halive, List.forall_mem_cons.mpr ⟨fun hdying => ?_, hframes⟩⟩
      obtain rfl := Option.some.inj hdying
      exact hne (h.unique _ _ _ hn hm)
    dying := List.forall_mem_cons.mpr ⟨fun m hm => by
      obtain rfl := Option.some.inj hm
      exact (h.tracked _ _ hn).1, h.dying⟩
    installed := fun m hm => by
      obtain ⟨hlt, ⟨name, hname⟩ | ⟨f, hf, hf'⟩ | hdestroyed⟩ := h.installed m hm
      · refine ⟨hlt, ?_⟩
        obtain rfl | hne := eq_or_ne name moduleName
        · rw [hn] at hname
          exact .inr (.inl ⟨_, List.mem_cons_self, hname⟩)
        · exact .inl ⟨name, (AList.lookup_erase_ne hne).trans hname⟩
      · exact ⟨hlt, .inr (.inl ⟨f, List.mem_cons_of_mem _ hf, hf'⟩)⟩
      · exact ⟨hlt, .inr (.inr hdestroyed)⟩
    pending := List.forall_mem_cons.mpr ⟨fun m hm => ⟨(hready m hm).lt, (hready m hm).new⟩,
      h.pending⟩
    distinct := by
      rw [Runtime.push, List.filterMap_cons]
      cases hm : (Frame.destroying n install).pending with
      | none => exact h.distinct
      | some m => exact List.nodup_cons.mpr ⟨(hready m hm).alone, h.distinct⟩
    alive := List.forall_mem_cons.mpr ⟨fun i hi => (hinstall i hi).alive, h.alive⟩ }

/-- A view is destroyed with its context. -/
theorem Sound.destroy {install : Option (String × ℕ)}
    (h : Sound I { s with stack := .destroying n install :: frames }) :
    Sound I ({ s with
      stack := frames
      viewAlive := Function.update s.viewAlive n false
      contextAlive := Function.update s.contextAlive n false }.push (.removed install)) := by
  have hI : I n := h.dying _ List.mem_cons_self n rfl
  have hkept : ∀ m, m ≠ n → s.viewAlive m = true → Function.update s.viewAlive n false m = true :=
    fun m hne hm => (Function.update_of_ne hne ..).trans hm
  have hnew : ∀ frame ∈ Frame.destroying n install :: frames, ∀ i, frame.adopting = some i →
      i.2 ≠ n := by
    rintro frame hframe i hi rfl
    exact (h.pending frame hframe _ (Frame.pending_of_adopting hi)).2 hI
  exact {
    nodup := h.nodup
    listed := h.listed
    unique := h.unique
    tracked := fun name m hm => by
      obtain ⟨hIm, halive, hframes⟩ := h.tracked name m hm
      have hne : m ≠ n := by
        rintro rfl
        exact hframes _ List.mem_cons_self rfl
      exact ⟨hIm, hkept m hne halive, List.forall_mem_cons.mpr ⟨by simp [Frame.dying],
        fun f hf => hframes f (List.mem_cons_of_mem _ hf)⟩⟩
    dying := List.forall_mem_cons.mpr ⟨by simp [Frame.dying],
      fun f hf => h.dying f (List.mem_cons_of_mem _ hf)⟩
    installed := fun m hm => by
      obtain ⟨hlt, hrest⟩ := h.installed m hm
      refine ⟨hlt, ?_⟩
      obtain rfl | hne := eq_or_ne m n
      · exact .inr (.inr ⟨Function.update_self .., Function.update_self ..⟩)
      · obtain htracked | ⟨f, hf, hf'⟩ | ⟨hview, hcontext⟩ := hrest
        · exact .inl htracked
        · obtain rfl | hf := List.mem_cons.mp hf
          · exact absurd (Option.some.inj hf').symm hne
          · exact .inr (.inl ⟨f, List.mem_cons_of_mem _ hf, hf'⟩)
        · exact .inr (.inr ⟨(Function.update_of_ne hne ..).trans hview,
            (Function.update_of_ne hne ..).trans hcontext⟩)
    pending := List.forall_mem_cons.mpr ⟨h.pending (.destroying n install) List.mem_cons_self,
      fun f hf => h.pending f (List.mem_cons_of_mem _ hf)⟩
    distinct := h.distinct
    alive := fun f hf i hi => by
      obtain rfl | hf := List.mem_cons.mp hf
      · exact hkept _ (hnew _ List.mem_cons_self i hi) (h.alive _ List.mem_cons_self i hi)
      · exact hkept _ (hnew f (List.mem_cons_of_mem _ hf) i hi)
          (h.alive f (List.mem_cons_of_mem _ hf) i hi) }

/-- A context that belongs to no view goes. -/
theorem Sound.context (h : Sound I s) {contextAlive : ℕ → Bool}
    (hfalse : ∀ n, s.contextAlive n = false → contextAlive n = false) :
    Sound I { s with contextAlive } where
  nodup := h.nodup
  listed := h.listed
  unique := h.unique
  tracked := h.tracked
  dying := h.dying
  installed n hn := by
    obtain ⟨hlt, htracked | hdying | ⟨hview, hcontext⟩⟩ := h.installed n hn
    · exact ⟨hlt, .inl htracked⟩
    · exact ⟨hlt, .inr (.inl hdying)⟩
    · exact ⟨hlt, .inr (.inr ⟨hview, hfalse n hcontext⟩)⟩
  pending := h.pending
  distinct := h.distinct
  alive := h.alive

/-! ### The adoption of a view -/

/-- The state that an adoption leaves. -/
theorem adopt_fst (s : Runtime) (moduleName : String) (n : ℕ) :
    (s.adopt moduleName n).1 = { s with
      views := s.views.insert moduleName n
      order := s.order ++ [moduleName]
      lastError := "" }.push (.installed n) := rfl

/-- Nobody has the name. -/
theorem Sound.adopt (h : Sound I s) (hn : Ready I n s) (hvacant : moduleName ∉ s.views) :
    Sound (fun m => I m ∨ m = n) (s.adopt moduleName n).1 := by
  have hother : ∀ name, name ≠ moduleName →
      (s.views.insert moduleName n).lookup name = s.views.lookup name :=
    fun name hne => AList.lookup_insert_ne hne
  have hself : (s.views.insert moduleName n).lookup moduleName = some n := AList.lookup_insert _
  have hnone : ∀ name, s.views.lookup name ≠ some n :=
    fun name hname => hn.new (h.tracked name n hname).1
  rw [adopt_fst]
  exact {
    nodup := by
      have hnew : moduleName ∉ s.order := fun hmem => hvacant ((h.listed _).mp hmem)
      exact List.nodup_append.mpr ⟨h.nodup, List.nodup_singleton _, by
        rintro name hname _ hsingle rfl
        rw [List.mem_singleton.mp hsingle] at hname
        exact hnew hname⟩
    listed := fun name => by
      have : name ∈ s.order ++ [moduleName] ↔ name ∈ s.views.insert moduleName n := by
        rw [List.mem_append, h.listed, List.mem_singleton, AList.mem_insert, or_comm]
      exact this
    unique := fun name name' m hm hm' => by
      have hone : ∀ name, (s.views.insert moduleName n).lookup name = some m →
          name = moduleName ∧ m = n ∨ name ≠ moduleName ∧ s.views.lookup name = some m := by
        intro name hm
        obtain rfl | hne := eq_or_ne name moduleName
        · exact .inl ⟨rfl, Option.some.inj (hm.symm.trans hself)⟩
        · exact .inr ⟨hne, (hother name hne).symm.trans hm⟩
      obtain ⟨rfl, rfl⟩ | ⟨-, hold⟩ := hone name hm
      · obtain ⟨rfl, -⟩ | ⟨-, hold'⟩ := hone name' hm'
        · rfl
        · exact absurd hold' (hnone _)
      · obtain ⟨-, rfl⟩ | ⟨-, hold'⟩ := hone name' hm'
        · exact absurd hold (hnone _)
        · exact h.unique _ _ _ hold hold'
    tracked := fun name m hm => by
      obtain rfl | hne := eq_or_ne name moduleName
      · obtain rfl := Option.some.inj (hm.symm.trans hself)
        exact ⟨.inr rfl, hn.alive, List.forall_mem_cons.mpr ⟨by simp [Frame.dying],
          fun f hf hdying => hn.new (h.dying f hf _ hdying)⟩⟩
      · obtain ⟨hI, halive, hframes⟩ := h.tracked name m ((hother name hne).symm.trans hm)
        exact ⟨.inl hI, halive, List.forall_mem_cons.mpr ⟨by simp [Frame.dying], hframes⟩⟩
    dying := List.forall_mem_cons.mpr ⟨by simp [Frame.dying],
      fun f hf m hm => .inl (h.dying f hf m hm)⟩
    installed := by
      rintro m (hm | rfl)
      · obtain ⟨hlt, ⟨name, hname⟩ | ⟨f, hf, hf'⟩ | hdestroyed⟩ := h.installed m hm
        · have hne : name ≠ moduleName := by
            rintro rfl
            exact hvacant (AList.lookup_isSome.mp (by rw [hname]; rfl))
          exact ⟨hlt, .inl ⟨name, (hother name hne).trans hname⟩⟩
        · exact ⟨hlt, .inr (.inl ⟨f, List.mem_cons_of_mem _ hf, hf'⟩)⟩
        · exact ⟨hlt, .inr (.inr hdestroyed)⟩
      · exact ⟨hn.lt, .inl ⟨moduleName, hself⟩⟩
    pending := List.forall_mem_cons.mpr ⟨by simp [Frame.pending, Frame.adopting],
      fun f hf m hm => by
        obtain ⟨hlt, hnew⟩ := h.pending f hf m hm
        refine ⟨hlt, ?_⟩
        rintro (hI | rfl)
        · exact hnew hI
        · exact hn.alone (List.mem_filterMap.mpr ⟨f, hf, hm⟩)⟩
    distinct := h.distinct
    alive := List.forall_mem_cons.mpr ⟨by simp [Frame.adopting], h.alive⟩ }

/-- Somebody has the name: the view it had is lost. -/
theorem Sound.adopt_leaked {old : ℕ} (h : Sound I s) (hn : Ready I n s)
    (hold : s.views.lookup moduleName = some old) :
    I old ∧ Leaked old (s.adopt moduleName n).1 := by
  obtain ⟨hI, halive, hframes⟩ := h.tracked _ _ hold
  refine ⟨hI, ?_⟩
  rw [adopt_fst]
  exact {
    lt := (h.installed old hI).1
    alive := halive
    untracked := fun name hname => by
      obtain rfl | hne := eq_or_ne name moduleName
      · obtain rfl := Option.some.inj ((AList.lookup_insert _).symm.trans hname)
        exact hn.new hI
      · exact hne (h.unique _ _ _ hold ((AList.lookup_insert_ne hne).symm.trans hname))
    frames := List.forall_mem_cons.mpr ⟨by simp [Frame.dying, Frame.pending, Frame.adopting],
      fun f hf => ⟨hframes f hf, fun hpending => (h.pending f hf old hpending).2 hI⟩⟩ }

/-! ### Soundness step by step -/

theorem stack_eq (hstack : s.stack = frame :: frames) :
    s = { s with stack := frame :: frames } := by
  rw [← hstack]

/-- What a step is, by the frame on top. -/
inductive Effect (s : Runtime) : Action → Runtime × List Obs → Prop
  | install (moduleName : String) (compileError : Option String) :
      Effect s (.installModuleView moduleName compileError)
        (s.installModuleView moduleName compileError)
  | remove (moduleName : String) :
      Effect s (.removeModuleView moduleName) (s.removeModuleView moduleName none)
  | created {moduleName : String} {n : ℕ} {frames : List Frame} :
      s.stack = .creating moduleName n :: frames →
      Effect s .created ({ s with stack := frames }.create moduleName n)
  | createFailed {moduleName : String} {n : ℕ} {frames : List Frame} {error : String} :
      s.stack = .creating moduleName n :: frames →
      Effect s (.createFailed error) ({ s with stack := frames }.createFailed moduleName n error)
  | returned {frame : Frame} {frames : List Frame} {r : Runtime × List Obs} :
      s.stack = frame :: frames → { s with stack := frames }.resume frame = some r →
      Effect s .returned r

theorem step_effect {a : Action} {r : Runtime × List Obs} (hs : step s a = some r) :
    Effect s a r := by
  cases a with
  | installModuleView name compileError =>
      obtain rfl := Option.some.inj hs
      exact .install name compileError
  | removeModuleView name =>
      obtain rfl := Option.some.inj hs
      exact .remove name
  | created =>
      simp only [step] at hs
      split at hs
      next name n frames hstack =>
        obtain rfl := Option.some.inj hs
        exact .created hstack
      · cases hs
  | createFailed error =>
      simp only [step] at hs
      split at hs
      next name n frames hstack =>
        obtain rfl := Option.some.inj hs
        exact .createFailed hstack
      · cases hs
  | returned =>
      simp only [step] at hs
      split at hs
      next frame frames hstack => exact .returned hstack hs
      · cases hs

/-- What was installed before (`I`) and what is installed now is sound. -/
def Kept (I : ℕ → Prop) (r : Runtime × List Obs) : Prop :=
  Sound (fun n => I n ∨ ∃ moduleName, .moduleViewInstalled moduleName n ∈ r.2) r.1

/-- Nothing is installed. -/
theorem Sound.kept {os : List Obs} (h : Sound I s)
    (hos : ∀ name n, .moduleViewInstalled name n ∉ os) : Kept I (s, os) := by
  refine h.congr fun n => ?_
  constructor
  · rintro (hI | ⟨name, hname⟩)
    · exact hI
    · exact absurd hname (hos name n)
  · exact .inl

theorem Sound.adopt_kept (h : Sound I s) (hn : Ready I n s) (hvacant : moduleName ∉ s.views) :
    Kept I (s.adopt moduleName n) := by
  refine (h.adopt hn hvacant).congr fun m => ?_
  simp [Runtime.adopt]

theorem Sound.fail (h : Sound I s) (context : Option ℕ) :
    Kept I (s.fail moduleName error context) := by
  have hpush : Sound I (s.push (.failed context)) := h.push rfl rfl
  exact Sound.kept { hpush with } (by simp)

theorem Sound.installModuleView (h : Sound I s) (compileError : Option String) :
    Kept I (s.installModuleView moduleName compileError) := by
  unfold Runtime.installModuleView
  split_ifs
  · exact h.fail none
  · exact h.fail none
  · cases compileError with
    | some error => exact h.fail none
    | none => exact h.begin.kept (by simp)

theorem Sound.removeModuleView {install : Option (String × ℕ)} (h : Sound I s)
    (hinstall : ∀ i ∈ install, i.1 = moduleName ∧ Ready I i.2 s) :
    Kept I (s.removeModuleView moduleName install) := by
  rw [Runtime.removeModuleView]
  cases hn : s.views.lookup moduleName with
  | some n => exact (h.remove hn fun i hi => (hinstall i hi).2).kept (by simp)
  | none =>
      cases install with
      | none => exact h.kept (by simp)
      | some i =>
          obtain ⟨rfl, hready⟩ := hinstall i rfl
          exact h.adopt_kept hready (AList.lookup_eq_none.mp hn)

/-- The code in the frame on top returns. -/
theorem Sound.resume {r : Runtime × List Obs} (h : Sound I { s with stack := frame :: frames })
    (hr : { s with stack := frames }.resume frame = some r) :
    ((∀ install ∈ frame.replacing, install.1 ∉ s.views) → Kept I r) ∧
      ((¬ ∀ install ∈ frame.replacing, install.1 ∉ s.views) → ∃ n, I n ∧ Leaked n r.1) := by
  have hvacant : frame.replacing = none → ∀ install ∈ frame.replacing, install.1 ∉ s.views := by
    intro hnone install hinstall
    rw [hnone] at hinstall
    cases hinstall
  cases frame with
  | creating name n => cases hr
  | destroying n install =>
      obtain rfl := Option.some.inj hr
      exact ⟨fun _ => h.destroy.kept (by simp), fun hnot => absurd (hvacant rfl) hnot⟩
  | removed install =>
      obtain rfl := Option.some.inj hr
      have hpop : Sound I { s with stack := frames } := h.pop rfl
      cases install with
      | none => exact ⟨fun _ => hpop.kept (by simp), fun hnot => absurd (hvacant rfl) hnot⟩
      | some i =>
          have hready : Ready I i.2 { s with stack := frames } := by
            obtain ⟨hlt, hnew, halone⟩ := h.top (n := i.2) rfl
            exact ⟨hlt, hnew, halone, h.alive _ List.mem_cons_self i rfl⟩
          constructor
          · intro hnone
            exact hpop.adopt_kept hready (hnone i rfl)
          · intro hnot
            have htaken : i.1 ∈ s.views := by
              by_contra hnone
              refine hnot fun install hinstall => ?_
              obtain rfl := Option.some.inj hinstall
              exact hnone
            obtain ⟨old, hold⟩ := Option.isSome_iff_exists.mp (AList.lookup_isSome.mpr htaken)
            exact ⟨old, hpop.adopt_leaked hready hold⟩
  | installed n =>
      obtain rfl := Option.some.inj hr
      have hpop : Sound I { s with stack := frames } := h.pop rfl
      exact ⟨fun _ => (hpop.push rfl rfl).kept (by simp), fun hnot => absurd (hvacant rfl) hnot⟩
  | changed n =>
      obtain rfl := Option.some.inj hr
      have hpop : Sound I { s with stack := frames } := h.pop rfl
      exact ⟨fun _ => hpop.kept (by simp), fun hnot => absurd (hvacant rfl) hnot⟩
  | failed context =>
      obtain rfl := Option.some.inj hr
      have hpop : Sound I { s with stack := frames } := h.pop rfl
      refine ⟨fun _ => (hpop.context fun n hn => ?_).kept (by simp),
        fun hnot => absurd (hvacant rfl) hnot⟩
      show (if context = some n then false else s.contextAlive n) = false
      rw [show s.contextAlive n = false from hn, ite_self]

/-- Soundness is kept by the steps that meet the condition and lost by the others. -/
theorem Sound.step {a : Action} {r : Runtime × List Obs} (h : Sound I s) (hs : step s a = some r) :
    (Vacant s a → Kept I r) ∧ (¬ Vacant s a → ∃ n, I n ∧ Leaked n r.1) := by
  cases step_effect hs with
  | install name compileError =>
      exact ⟨fun _ => h.installModuleView compileError, fun hnot => absurd trivial hnot⟩
  | remove name => exact ⟨fun _ => h.removeModuleView (by simp), fun hnot => absurd trivial hnot⟩
  | created hstack =>
      refine ⟨fun _ => ?_, fun hnot => absurd trivial hnot⟩
      rw [stack_eq hstack] at h
      obtain ⟨hsound, hready⟩ := h.create
      refine hsound.removeModuleView fun i hi => ?_
      obtain rfl := Option.some.inj hi
      exact ⟨rfl, hready⟩
  | createFailed hstack =>
      refine ⟨fun _ => ?_, fun hnot => absurd trivial hnot⟩
      rw [stack_eq hstack] at h
      exact (h.pop rfl).fail _
  | @returned frame frames _ hstack hr =>
      have hvacant : Vacant s .returned ↔ ∀ install ∈ frame.replacing, install.1 ∉ s.views := by
        rw [Vacant, hstack]
        simp
      rw [hvacant]
      rw [stack_eq hstack] at h
      exact h.resume hr

/-! ### A lost view stays lost -/

theorem Leaked.pop (h : Leaked n { s with stack := frame :: frames }) :
    Leaked n { s with stack := frames } where
  lt := h.lt
  alive := h.alive
  untracked := h.untracked
  frames f hf := h.frames f (List.mem_cons_of_mem _ hf)

theorem Leaked.push (h : Leaked n s) (hdying : frame.dying ≠ some n)
    (hpending : frame.pending ≠ some n) : Leaked n (s.push frame) where
  lt := h.lt
  alive := h.alive
  untracked := h.untracked
  frames := List.forall_mem_cons.mpr ⟨⟨hdying, hpending⟩, h.frames⟩

theorem Leaked.fail (h : Leaked n s) (context : Option ℕ) :
    Leaked n (s.fail moduleName error context).1 := by
  have hpush : Leaked n (s.push (.failed context)) :=
    h.push (by simp [Frame.dying]) (by simp [Frame.pending, Frame.adopting])
  exact { hpush with }

theorem Leaked.installModuleView (h : Leaked n s) (compileError : Option String) :
    Leaked n (s.installModuleView moduleName compileError).1 := by
  unfold Runtime.installModuleView
  split_ifs
  · exact h.fail none
  · exact h.fail none
  · cases compileError with
    | some error => exact h.fail none
    | none =>
        have hnew : (Frame.creating moduleName s.created).pending ≠ some n := by
          intro heq
          exact Nat.ne_of_gt h.lt (Option.some.inj heq)
        have hpush : Leaked n (s.push (.creating moduleName s.created)) :=
          h.push (by simp [Frame.dying]) hnew
        exact { hpush with lt := Nat.lt_succ_of_lt h.lt }

/-- The view of another installation is adopted. -/
theorem Leaked.adopt {m : ℕ} (h : Leaked n s) (hne : m ≠ n) :
    Leaked n (s.adopt moduleName m).1 := by
  have hpush : Leaked n (s.push (.installed m)) :=
    h.push (by simp [Frame.dying]) (by simp [Frame.pending, Frame.adopting])
  refine { hpush with untracked := fun name hname => ?_ }
  obtain rfl | hother := eq_or_ne name moduleName
  · exact hne (Option.some.inj ((AList.lookup_insert _).symm.trans hname))
  · exact h.untracked name ((AList.lookup_insert_ne hother).symm.trans hname)

theorem Leaked.afterRemoval {removed : Bool} {install : Option (String × ℕ)} (h : Leaked n s)
    (hinstall : ∀ i ∈ install, i.2 ≠ n) : Leaked n (s.afterRemoval removed install).1 := by
  cases install with
  | none => exact h
  | some i => exact h.adopt (hinstall i rfl)

theorem Leaked.removeModuleView {install : Option (String × ℕ)} (h : Leaked n s)
    (hinstall : ∀ i ∈ install, i.2 ≠ n) : Leaked n (s.removeModuleView moduleName install).1 := by
  rw [Runtime.removeModuleView]
  cases hm : s.views.lookup moduleName with
  | none => exact h.afterRemoval hinstall
  | some m =>
      have hpush : Leaked n (s.push (.destroying m install)) := by
        refine h.push (fun heq => ?_) fun heq => ?_
        · obtain rfl := Option.some.inj heq
          exact h.untracked moduleName hm
        · obtain ⟨i, hi, hn⟩ := Option.map_eq_some_iff.mp heq
          exact hinstall i hi hn
      refine { hpush with untracked := fun name hname => ?_ }
      obtain rfl | hother := eq_or_ne name moduleName
      · exact Option.some_ne_none _ (hname.symm.trans (AList.lookup_erase _ _))
      · exact h.untracked name ((AList.lookup_erase_ne hother).symm.trans hname)

/-- The installation of a frame has a number of its own. -/
theorem Leaked.adopting (h : Leaked n { s with stack := frame :: frames }) :
    ∀ i ∈ frame.adopting, i.2 ≠ n := by
  rintro i hi rfl
  exact (h.frames frame List.mem_cons_self).2 (Frame.pending_of_adopting hi)

theorem Leaked.resume {r : Runtime × List Obs} (h : Leaked n { s with stack := frame :: frames })
    (hr : { s with stack := frames }.resume frame = some r) : Leaked n r.1 := by
  cases frame with
  | creating name m => cases hr
  | destroying m install =>
      obtain rfl := Option.some.inj hr
      have hne : n ≠ m := by
        rintro rfl
        exact (h.frames _ List.mem_cons_self).1 rfl
      have hpush : Leaked n ({ s with stack := frames }.push (.removed install)) :=
        h.pop.push (by simp [Frame.dying]) (h.frames (.destroying m install) List.mem_cons_self).2
      exact { hpush with alive := (Function.update_of_ne hne ..).trans h.alive }
  | removed install =>
      obtain rfl := Option.some.inj hr
      exact h.pop.afterRemoval h.adopting
  | installed m =>
      obtain rfl := Option.some.inj hr
      exact h.pop.push (by simp [Frame.dying]) (by simp [Frame.pending, Frame.adopting])
  | changed m =>
      obtain rfl := Option.some.inj hr
      exact h.pop
  | failed context =>
      obtain rfl := Option.some.inj hr
      exact { h.pop with }

theorem Leaked.step {a : Action} {r : Runtime × List Obs} (h : Leaked n s)
    (hs : step s a = some r) : Leaked n r.1 := by
  cases step_effect hs with
  | install name compileError => exact h.installModuleView compileError
  | remove name => exact h.removeModuleView (by simp)
  | @created name m frames hstack =>
      rw [stack_eq hstack] at h
      have hne : m ≠ n := by
        rintro rfl
        exact (h.frames _ List.mem_cons_self).2 rfl
      have halive : Leaked n { s with
          stack := frames, viewAlive := Function.update s.viewAlive m true } :=
        { h.pop with alive := (Function.update_of_ne hne.symm ..).trans h.alive }
      refine halive.removeModuleView fun i hi => ?_
      obtain rfl := Option.some.inj hi
      exact hne
  | createFailed hstack =>
      rw [stack_eq hstack] at h
      exact h.pop.fail _
  | returned hstack hr =>
      rw [stack_eq hstack] at h
      exact h.resume hr

/-! ### An installation that fails -/

/-- An installation that has its view. -/
def Frame.late : Frame → Bool
  | .creating .. | .failed _ => false
  | _ => true

/-- On `base` there is nothing but an installation that has its view. -/
def Late (base : List Frame) (s : Runtime) : Prop :=
  s.stack = base ∨ ∃ frame, s.stack = frame :: base ∧ frame.late = true

/-- `r` reports no failure. -/
def Silent (os : List Obs) : Prop :=
  ∀ moduleName error, .moduleViewFailed moduleName error ∉ os

variable {base : List Frame}

theorem afterRemoval_late (hstack : s.stack = base) (removed : Bool)
    (install : Option (String × ℕ)) : Late base (s.afterRemoval removed install).1 ∧
      Silent (s.afterRemoval removed install).2 := by
  cases install with
  | none => exact ⟨.inl hstack, by simp [Silent, Runtime.afterRemoval]⟩
  | some i =>
      refine ⟨.inr ⟨.installed i.2, ?_, rfl⟩, by simp [Silent, Runtime.afterRemoval, Runtime.adopt]⟩
      exact congrArg (_ :: ·) hstack

theorem removeModuleView_late (hstack : s.stack = base) (install : Option (String × ℕ)) :
    Late base (s.removeModuleView moduleName install).1 ∧
      Silent (s.removeModuleView moduleName install).2 := by
  rw [Runtime.removeModuleView]
  cases s.views.lookup moduleName with
  | none => exact afterRemoval_late hstack false install
  | some n => exact ⟨.inr ⟨.destroying n install, congrArg (_ :: ·) hstack, rfl⟩, by simp [Silent]⟩

theorem create_late (hstack : s.stack = base) (moduleName : String) (n : ℕ) :
    Late base (s.create moduleName n).1 ∧ Silent (s.create moduleName n).2 :=
  removeModuleView_late (s := { s with viewAlive := Function.update s.viewAlive n true }) hstack _

/-- An installation that has its view does not fail any more. -/
theorem resume_late {r : Runtime × List Obs} (hstack : s.stack = base) (hlate : frame.late = true)
    (hr : s.resume frame = some r) : Late base r.1 ∧ Silent r.2 := by
  cases frame with
  | creating name n => cases hlate
  | failed context => cases hlate
  | destroying n install =>
      obtain rfl := Option.some.inj hr
      exact ⟨.inr ⟨.removed install, congrArg (_ :: ·) hstack, rfl⟩, by simp [Silent]⟩
  | removed install =>
      obtain rfl := Option.some.inj hr
      exact afterRemoval_late hstack true install
  | installed n =>
      obtain rfl := Option.some.inj hr
      exact ⟨.inr ⟨.changed n, congrArg (_ :: ·) hstack, rfl⟩, by simp [Silent]⟩
  | changed n =>
      obtain rfl := Option.some.inj hr
      exact ⟨.inl hstack, by simp [Silent]⟩

theorem late_step {a : Action} {r : Runtime × List Obs} (hstack : s.stack = frame :: base)
    (hlate : frame.late = true) (ha : isCall a = false) (hs : step s a = some r) :
    Late base r.1 ∧ Silent r.2 := by
  cases step_effect hs with
  | install name compileError => cases ha
  | remove name => cases ha
  | created hcreating =>
      obtain ⟨rfl, -⟩ := List.cons.inj (hstack.symm.trans hcreating)
      cases hlate
  | createFailed hcreating =>
      obtain ⟨rfl, -⟩ := List.cons.inj (hstack.symm.trans hcreating)
      cases hlate
  | returned htop hr =>
      obtain ⟨rfl, rfl⟩ := List.cons.inj (hstack.symm.trans htop)
      exact resume_late (s := { s with stack := base }) rfl hlate hr

theorem Alone.at_base {os : List Obs} (h : Alone base s os s') (hstack : s.stack = base) :
    os = [] ∧ s' = s := by
  cases h with
  | ended => exact ⟨rfl, rfl⟩
  | step hne => exact absurd hstack hne

theorem Alone.silent {os : List Obs} (h : Alone base s os s') (hlate : Late base s) :
    Silent os := by
  induction h with
  | ended => simp [Silent]
  | step hne ha hs _ ih =>
      obtain hstack | ⟨frame, hstack, hframe⟩ := hlate
      · exact absurd hstack hne
      · obtain ⟨hlate', hsilent⟩ := late_step hstack hframe ha hs
        intro name error hmem
        obtain hmem | hmem := List.mem_append.mp hmem
        · exact hsilent name error hmem
        · exact ih hlate' name error hmem

/-- A failure is reported when all has been done. -/
theorem Alone.failed {os : List Obs} {context : Option ℕ} (h : Alone base s os s')
    (hstack : s.stack = .failed context :: base) : s'.views = s.views ∧ s'.order = s.order := by
  cases h with
  | ended hbase => exact ⟨rfl, rfl⟩
  | @step _ _ _ a os os' hne ha hs hrest =>
      cases a with
      | returned =>
          simp only [WebRuntime.step, hstack, Runtime.resume, Option.some.injEq, Prod.mk.injEq]
            at hs
          obtain ⟨rfl, rfl⟩ := hs
          obtain ⟨-, rfl⟩ := hrest.at_base rfl
          exact ⟨rfl, rfl⟩
      | created => simp [WebRuntime.step, hstack] at hs
      | createFailed error => simp [WebRuntime.step, hstack] at hs
      | installModuleView name compileError => cases ha
      | removeModuleView name => cases ha

/-- While the document is created nothing has been done. -/
theorem Alone.creating {os : List Obs} {name : String} (h : Alone base s os s')
    (hstack : s.stack = .creating name n :: base)
    (hfailed : .moduleViewFailed moduleName error ∈ os) :
    s'.views = s.views ∧ s'.order = s.order := by
  cases h with
  | ended => cases hfailed
  | @step _ _ _ a os os' hne ha hs hrest =>
      cases a with
      | created =>
          simp only [WebRuntime.step, hstack, Option.some.injEq] at hs
          obtain ⟨hlate, hsilent⟩ := create_late (s := { s with stack := base }) rfl name n
          rw [hs] at hlate hsilent
          obtain hmem | hmem := List.mem_append.mp hfailed
          · exact absurd hmem (hsilent _ _)
          · exact absurd hmem (hrest.silent hlate _ _)
      | createFailed message =>
          simp only [WebRuntime.step, hstack, Option.some.injEq] at hs
          rw [Runtime.createFailed, Runtime.fail, Prod.mk.injEq] at hs
          obtain ⟨rfl, -⟩ := hs
          exact hrest.failed rfl
      | returned => simp [WebRuntime.step, hstack, Runtime.resume] at hs
      | installModuleView name compileError => cases ha
      | removeModuleView name => cases ha

theorem failsCleanly (s : Runtime) : FailsCleanly s := by
  intro name compileError s₁ os₁ os₂ s₂ message hs halone hfailed
  have hs := Option.some.inj hs
  have hfail : ∀ error context, s.fail name error context = (s₁, os₁) →
      s₂.views = s.views ∧ s₂.order = s.order := by
    intro error context hr
    obtain ⟨rfl, -⟩ := Prod.mk.injEq .. ▸ hr
    exact halone.failed rfl
  unfold Runtime.installModuleView at hs
  split_ifs at hs
  · exact hfail _ _ hs
  · exact hfail _ _ hs
  · cases compileError with
    | some error => exact hfail _ _ hs
    | none =>
        obtain ⟨rfl, rfl⟩ := Prod.mk.injEq .. ▸ hs
        exact halone.creating rfl hfailed

/-! ### Whole runs -/

section run

variable {engine : Bool} {G : History → Runtime → Action → Prop} {h : History}

theorem sound_init (engine : Bool) : Sound (Installed []) (machine engine).init where
  nodup := List.nodup_nil
  listed name := by
    have : name ∈ ([] : List String) ↔ name ∈ (∅ : QHash String ℕ) := by simp
    exact this
  unique name name' n hn := by cases hn
  tracked name n hn := by cases hn
  dying frame hframe := by cases hframe
  installed n hn := by
    obtain ⟨m, hm, -⟩ := hn
    cases hm
  pending frame hframe := by cases hframe
  distinct := List.nodup_nil
  alive frame hframe := by cases hframe

theorem installed_append {m : Machine.Taken Runtime Action Obs} :
    Installed (h ++ [m]) n ↔
      Installed h n ∨ ∃ moduleName, .moduleViewInstalled moduleName n ∈ m.os := by
  simp only [Installed, List.mem_append, List.mem_singleton, or_and_right, exists_or,
    exists_eq_left]

/-- No view is lost, or one was and stays lost. -/
theorem sound_or_leaked (hrun : (machine engine).shown.Run G h s) :
    (∀ m ∈ h, Vacant m.before m.label) ∧ Sound (Installed h) s ∨
      (∃ m ∈ h, ¬ Vacant m.before m.label) ∧ ∃ n, Installed h n ∧ Leaked n s := by
  refine Machine.Run.lasting (C := Vacant) (P := fun h s => Sound (Installed h) s)
    (Q := fun h s => ∃ n, Installed h n ∧ Leaked n s) (sound_init engine)
    (fun {_ _ _ _ _} hgood hs => ?_) (fun {_ _ _ _ _} hbad hs => ?_) hrun
  · obtain ⟨hkept, hlost⟩ := hgood.step hs
    constructor
    · intro hvacant
      exact (hkept hvacant).congr fun n => installed_append
    · intro hnot
      obtain ⟨n, hn, hleaked⟩ := hlost hnot
      exact ⟨n, installed_append.mpr (.inl hn), hleaked⟩
  · obtain ⟨n, hn, hleaked⟩ := hbad
    exact ⟨n, installed_append.mpr (.inl hn), hleaked.step hs⟩

theorem Sound.settled (hsound : Sound (Installed h) s) (hstack : s.stack = []) : Settled h s where
  nodup := hsound.nodup
  listed := hsound.listed
  destroyed n hn huntracked := by
    obtain ⟨-, ⟨name, hname⟩ | ⟨frame, hframe, -⟩ | hdestroyed⟩ := hsound.installed n hn
    · exact absurd hname (huntracked name)
    · rw [hstack] at hframe
      cases hframe
    · exact hdestroyed

/-- **Installed views stay consistent** in exactly the runs in which no installation finds its name
taken when its removal is over; one that fails and calls nothing leaves them alone in any case. -/
theorem settled_iff_vacant (engine : Bool) :
    (∀ h s, (machine engine).shown.Run Machine.always h s → s.stack = [] →
      (Settled h s ↔ ∀ m ∈ h, Vacant m.before m.label)) ∧ ∀ s, FailsCleanly s := by
  refine ⟨fun h s hrun hstack => ?_, failsCleanly⟩
  obtain ⟨hvacant, hsound⟩ | ⟨⟨m, hm, hnot⟩, n, hn, hleaked⟩ := sound_or_leaked hrun
  · exact iff_of_true (hsound.settled hstack) hvacant
  · refine iff_of_false (fun hsettled => ?_) fun hvacant => hnot (hvacant m hm)
    have hdead := (hsettled.destroyed n hn hleaked.untracked).1
    rw [hleaked.alive] at hdead
    cases hdead

end run

instance (s : Runtime) : (a : Action) → Decidable (Vacant s a)
  | .returned => inferInstanceAs
      (Decidable (∀ frame ∈ s.stack.head?, ∀ install ∈ frame.replacing, install.1 ∉ s.views))
  | .installModuleView .. | .removeModuleView _ | .created | .createFailed _ =>
      inferInstanceAs (Decidable True)

/-- A document creates nothing. -/
theorem creates_nothing (hengine : s.engine = true) : ∃ s₁ s₂ os,
    step s (.installModuleView "chat" none) = some (s₁, []) ∧ Alone s.stack s₁ os s₂ ∧
    .moduleViewFailed "chat" "the module's QML created no object" ∈ [] ++ os := by
  have hbegin : s.installModuleView "chat" none = ({ s with
      created := s.created + 1
      contextAlive := Function.update s.contextAlive s.created true }.push
        (.creating "chat" s.created), []) := by
    simp [Runtime.installModuleView, hengine]
  refine ⟨_, _, _, congrArg some hbegin, .step (a := .createFailed "") ?_ rfl rfl
    (.step (a := .returned) ?_ rfl rfl (.ended rfl)), by simp⟩
  · exact List.cons_ne_self _ _
  · exact List.cons_ne_self _ _

/-- Another view is installed by a document and removed by a view that is replaced; then a document
creates nothing. -/
theorem replaced_once : ∃ h s, (machine true).shown.Run Machine.always h s ∧ s.stack = [] ∧
    Settled h s ∧ s.installedModules = ["counter"] ∧ s.views.lookup "counter" = some 2 ∧
    [0, 1, 2].map s.viewAlive = [false, false, true] ∧ ∃ s₁ s₂ os,
      step s (.installModuleView "chat" none) = some (s₁, []) ∧ Alone s.stack s₁ os s₂ ∧
      s₂.views = s.views ∧ s₂.order = s.order := by
  obtain ⟨h, s, hrun, hvacant, hengine, hstack, hfacts⟩ := Machine.exec_any
    (M := (machine true).shown) (G := Machine.always)
    [.installModuleView "counter" none, .installModuleView "wallet" none, .created, .returned,
      .returned, .created, .returned, .returned, .installModuleView "counter" none, .created,
      .removeModuleView "wallet", .returned, .returned, .returned, .returned, .returned, .returned]
    (p := fun h s => (∀ m ∈ h, Vacant m.before m.label) ∧ s.engine = true ∧ s.stack = [] ∧
      s.installedModules = ["counter"] ∧ s.views.lookup "counter" = some 2 ∧
      [0, 1, 2].map s.viewAlive = [false, false, true]) (by decide +kernel)
  have hsettled := ((settled_iff_vacant true).1 h s hrun hstack).mpr hvacant
  refine ⟨h, s, hrun, hstack, hsettled, hfacts.1, hfacts.2.1, hfacts.2.2, ?_⟩
  obtain ⟨s₁, s₂, os, hs, halone, hfailed⟩ := creates_nothing hengine
  exact ⟨s₁, s₂, os, hs, halone, (settled_iff_vacant true).2 s _ _ _ _ _ _ _ hs halone hfailed⟩

/-- A slot that sees the module gone installs it again: it is listed twice, and nothing tracks the
view of the slot. -/
theorem installed_in_a_slot : ∃ h s, (machine true).shown.Run Machine.always h s ∧ s.stack = [] ∧
    s.installedModules = ["counter", "counter"] ∧ s.views.lookup "counter" = some 1 ∧
    s.viewAlive 2 = true ∧ ¬ Settled h s := by
  obtain ⟨h, s, hrun, hstack, hlisted, hfacts⟩ := Machine.exec_any (M := (machine true).shown)
    (G := Machine.always)
    [.installModuleView "counter" none, .created, .returned, .returned,
      .installModuleView "counter" none, .created, .returned, .installModuleView "counter" none,
      .created, .returned, .returned, .returned, .returned, .returned]
    (p := fun _ s => s.stack = [] ∧ s.installedModules = ["counter", "counter"] ∧
      s.views.lookup "counter" = some 1 ∧ s.viewAlive 2 = true) (by decide +kernel)
  refine ⟨h, s, hrun, hstack, hlisted, hfacts.1, hfacts.2, fun hsettled => ?_⟩
  have hnodup := hsettled.nodup
  rw [hlisted] at hnodup
  exact List.not_nodup_pair "counter" hnodup

end LogosViewRuntime.WebRuntime
