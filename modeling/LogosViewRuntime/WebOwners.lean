import LogosViewRuntime.WebInstall

/-! # Who owns a view

Every view and every context that is alive belongs to somebody: to the call that is creating it, or,
once it was installed, to the runtime, whose children the two become together.  This holds in every
run, also in those in which an installation overwrites a view, so it is what the runtime's own
destructor can rely on.  The views that neither the map nor a call knows are those that an
installation has overwritten (`OwnedIn.strays`). -/

namespace LogosViewRuntime.WebRuntime

open Reactive

variable {I : ℕ → Prop} {s s' : Runtime} {n : ℕ} {moduleName error : String} {frame : Frame}
  {frames : List Frame} {H A D : List ℕ}

/-- The number of a context that no one but this call knows. -/
def Frame.holds : Frame → Option ℕ
  | .failed context => context
  | frame => frame.pending

/-- The numbers that the calls under way hold. -/
def heldBy (frames : List Frame) : List ℕ := frames.filterMap Frame.holds

/-- Those of them whose views are to be adopted. -/
def adoptingBy (frames : List Frame) : List ℕ := frames.filterMap fun frame =>
  frame.adopting.map (·.2)

def dyingIn (frames : List Frame) : List ℕ := frames.filterMap Frame.dying

/-- The owners: `I` are the numbers that were installed, `H` those that calls hold, among them `A`
with a view to be adopted, and `D` those of the views that are being destroyed. -/
structure Owned (I : ℕ → Prop) (H A D : List ℕ) (s : Runtime) : Prop where
  held : ∀ n ∈ H, n < s.created ∧ ¬ I n ∧ s.contextAlive n = true
  distinct : H.Nodup
  adopting : ∀ n ∈ A, n ∈ H ∧ s.viewAlive n = true
  lt : ∀ n, I n → n < s.created
  unique : ∀ name name' n, s.views.lookup name = some n → s.views.lookup name' = some n →
    name' = name
  tracked : ∀ name n, s.views.lookup name = some n → I n ∧ s.viewAlive n = true ∧ n ∉ D
  dying : ∀ n ∈ D, I n
  paired : ∀ n, I n → s.viewAlive n = s.contextAlive n
  view : ∀ n, s.viewAlive n = true → I n ∨ n ∈ A
  context : ∀ n, s.contextAlive n = true → I n ∨ n ∈ H

/-! ### What a call does to the owners -/

theorem Owned.restack (h : Owned I H A D s) (stack : List Frame) :
    Owned I H A D { s with stack } :=
  ⟨h.held, h.distinct, h.adopting, h.lt, h.unique, h.tracked, h.dying, h.paired, h.view, h.context⟩

/-- A context is created. -/
theorem Owned.begin (h : Owned I H A D s) :
    Owned I (s.created :: H) A D { s with
      created := s.created + 1
      contextAlive := Function.update s.contextAlive s.created true } := by
  have hnew : ¬ I s.created := fun hI => lt_irrefl _ (h.lt _ hI)
  have hother : ∀ n, n ≠ s.created →
      Function.update s.contextAlive s.created true n = s.contextAlive n := fun n hn =>
    Function.update_of_ne hn _ _
  exact
    { held := fun n hn => by
        obtain rfl | hn := List.mem_cons.mp hn
        · exact ⟨Nat.lt_succ_self _, hnew, Function.update_self ..⟩
        · obtain ⟨hlt, hI, halive⟩ := h.held n hn
          exact ⟨Nat.lt_succ_of_lt hlt, hI, (hother n (Nat.ne_of_lt hlt)).trans halive⟩
      distinct := List.nodup_cons.mpr ⟨fun hm => lt_irrefl _ (h.held _ hm).1, h.distinct⟩
      adopting := fun n hn => ⟨List.mem_cons_of_mem _ (h.adopting n hn).1, (h.adopting n hn).2⟩
      lt := fun n hn => Nat.lt_succ_of_lt (h.lt n hn)
      unique := h.unique
      tracked := h.tracked
      dying := h.dying
      paired := fun n hn => (h.paired n hn).trans (hother n (Nat.ne_of_lt (h.lt n hn))).symm
      view := h.view
      context := fun n hn => by
        by_cases he : n = s.created
        · exact .inr (he ▸ List.mem_cons_self)
        · exact (h.context n ((hother n he).symm.trans hn)).imp id (List.mem_cons_of_mem _) }

/-- A document has created its object. -/
theorem Owned.created (h : Owned I (n :: H) A D s) :
    Owned I (n :: H) (n :: A) D
      { s with viewAlive := Function.update s.viewAlive n true } := by
  have hnot : ¬ I n := (h.held n List.mem_cons_self).2.1
  have hother : ∀ m, m ≠ n → Function.update s.viewAlive n true m = s.viewAlive m := fun m hm =>
    Function.update_of_ne hm _ _
  have hinstalled : ∀ m, I m → Function.update s.viewAlive n true m = s.viewAlive m :=
    fun m hm => hother m fun he => hnot (he ▸ hm)
  exact
    { held := h.held
      distinct := h.distinct
      adopting := fun m hm => by
        by_cases he : m = n
        · exact he ▸ ⟨List.mem_cons_self, Function.update_self ..⟩
        · obtain hm | hm := List.mem_cons.mp hm
          · exact absurd hm he
          · exact ⟨(h.adopting m hm).1, (hother m he).trans (h.adopting m hm).2⟩
      lt := h.lt
      unique := h.unique
      tracked := fun name m hm => by
        obtain ⟨hI, halive, hdying⟩ := h.tracked name m hm
        exact ⟨hI, (hinstalled m hI).trans halive, hdying⟩
      dying := h.dying
      paired := fun m hm => (hinstalled m hm).trans (h.paired m hm)
      view := fun m hm => by
        by_cases he : m = n
        · exact .inr (he ▸ List.mem_cons_self)
        · exact (h.view m ((hother m he).symm.trans hm)).imp id (List.mem_cons_of_mem _)
      context := h.context }

/-- A view is taken out of the map. -/
theorem Owned.remove (h : Owned I H A D s)
    (hn : s.views.lookup moduleName = some n) : Owned I H A (n :: D) { s with
      views := s.views.erase moduleName
      order := s.order.filter (· ≠ moduleName) } := by
  have hlookup : ∀ name m, (s.views.erase moduleName).lookup name = some m →
      name ≠ moduleName ∧ s.views.lookup name = some m := by
    intro name m hm
    by_cases he : name = moduleName
    · rw [he, AList.lookup_erase] at hm
      cases hm
    · exact ⟨he, (AList.lookup_erase_ne he).symm.trans hm⟩
  exact
    { held := h.held
      distinct := h.distinct
      adopting := h.adopting
      lt := h.lt
      unique := fun name name' m hm hm' => h.unique name name' m (hlookup _ _ hm).2 (hlookup _ _ hm').2
      tracked := fun name m hm => by
        obtain ⟨hne, hm⟩ := hlookup name m hm
        obtain ⟨hI, halive, hdying⟩ := h.tracked name m hm
        refine ⟨hI, halive, fun hmem => ?_⟩
        obtain rfl | hmem := List.mem_cons.mp hmem
        · exact hne (h.unique _ _ _ hn hm)
        · exact hdying hmem
      dying := fun m hm => by
        obtain rfl | hm := List.mem_cons.mp hm
        · exact (h.tracked _ _ hn).1
        · exact h.dying m hm
      paired := h.paired
      view := h.view
      context := h.context }

/-- A view and its context are destroyed. -/
theorem Owned.destroy (h : Owned I H A (n :: D) s) :
    Owned I H A D { s with
      viewAlive := Function.update s.viewAlive n false
      contextAlive := Function.update s.contextAlive n false } := by
  have hI : I n := h.dying n List.mem_cons_self
  have hne : ∀ m ∈ H, m ≠ n := by
    rintro m hm rfl
    exact (h.held m hm).2.1 hI
  exact
    { held := fun m hm => by
        obtain ⟨hlt, hnot, halive⟩ := h.held m hm
        exact ⟨hlt, hnot, (Function.update_of_ne (hne m hm) _ _).trans halive⟩
      distinct := h.distinct
      adopting := fun m hm => by
        obtain ⟨hheld, halive⟩ := h.adopting m hm
        exact ⟨hheld, (Function.update_of_ne (hne m hheld) _ _).trans halive⟩
      lt := h.lt
      unique := h.unique
      tracked := fun name m hm => by
        obtain ⟨hIm, halive, hdying⟩ := h.tracked name m hm
        have hmn : m ≠ n := fun he => hdying (he ▸ List.mem_cons_self)
        exact ⟨hIm, (Function.update_of_ne hmn _ _).trans halive,
          fun hm' => hdying (List.mem_cons_of_mem _ hm')⟩
      dying := fun m hm => h.dying m (List.mem_cons_of_mem _ hm)
      paired := fun m hm => by
        by_cases he : m = n
        · simp [he]
        · simpa [Function.update_of_ne he] using h.paired m hm
      view := fun m hm => by
        by_cases he : m = n
        · exact .inl (he ▸ hI)
        · exact h.view m ((Function.update_of_ne he _ _).symm.trans hm)
      context := fun m hm => by
        by_cases he : m = n
        · exact .inl (he ▸ hI)
        · exact h.context m ((Function.update_of_ne he _ _).symm.trans hm) }

/-- A view and its context become children of the runtime. -/
theorem Owned.adopt (h : Owned I (n :: H) (n :: A) D s) (hA : ∀ m ∈ A, m ∈ H) :
    Owned (fun m => I m ∨ m = n) H A D { s with
      views := s.views.insert moduleName n
      order := s.order ++ [moduleName]
      lastError := "" } := by
  obtain ⟨hlt, hnot, hcontext⟩ := h.held n List.mem_cons_self
  have hview : s.viewAlive n = true := (h.adopting n List.mem_cons_self).2
  have hne : ∀ m ∈ H, m ≠ n := by
    rintro m hm rfl
    exact (List.nodup_cons.mp h.distinct).1 hm
  have hlookup : ∀ name m, (s.views.insert moduleName n).lookup name = some m →
      name = moduleName ∧ m = n ∨ s.views.lookup name = some m := by
    intro name m hm
    by_cases he : name = moduleName
    · rw [he, AList.lookup_insert] at hm
      exact .inl ⟨he, (Option.some.inj hm).symm⟩
    · exact .inr ((AList.lookup_insert_ne he).symm.trans hm)
  have hold : ∀ name, s.views.lookup name ≠ some n := fun name hm => hnot (h.tracked name n hm).1
  exact
    { held := fun m hm => by
        obtain ⟨hltm, hnotm, halive⟩ := h.held m (List.mem_cons_of_mem _ hm)
        exact ⟨hltm, fun hI => hI.elim hnotm (hne m hm), halive⟩
      distinct := (List.nodup_cons.mp h.distinct).2
      adopting := fun m hm => ⟨hA m hm, (h.adopting m (List.mem_cons_of_mem _ hm)).2⟩
      lt := fun m hm => hm.elim (h.lt m) fun he => he ▸ hlt
      unique := fun name name' m hm hm' => by
        obtain ⟨rfl, rfl⟩ | hname := hlookup name m hm
        · obtain ⟨rfl, -⟩ | hname' := hlookup name' m hm'
          · rfl
          · exact absurd hname' (hold _)
        · obtain ⟨rfl, rfl⟩ | hname' := hlookup name' m hm'
          · exact absurd hname (hold _)
          · exact h.unique _ _ _ hname hname'
      tracked := fun name m hm => by
        obtain ⟨-, rfl⟩ | hm := hlookup name m hm
        · exact ⟨.inr rfl, hview, fun hm => hnot (h.dying m hm)⟩
        · obtain ⟨hI, halive, hdying⟩ := h.tracked name m hm
          exact ⟨.inl hI, halive, hdying⟩
      dying := fun m hm => .inl (h.dying m hm)
      paired := fun m hm => by
        obtain hm | rfl := hm
        · exact h.paired m hm
        · exact hview.trans hcontext.symm
      view := fun m hm => by
        obtain hI | hm := h.view m hm
        · exact .inl (.inl hI)
        · exact (List.mem_cons.mp hm).imp .inr id
      context := fun m hm => by
        obtain hI | hm := h.context m hm
        · exact .inl (.inl hI)
        · exact (List.mem_cons.mp hm).imp .inr id }

/-- The context of an installation that failed goes with the call. -/
theorem Owned.drop (h : Owned I (n :: H) A D s) (hA : n ∉ A) :
    Owned I H A D { s with
      contextAlive := fun m => if some n = some m then false else s.contextAlive m } := by
  have hnot : ¬ I n := (h.held n List.mem_cons_self).2.1
  have hother : ∀ m, m ≠ n →
      (if some n = some m then false else s.contextAlive m) = s.contextAlive m := fun m hm =>
    if_neg fun he => hm (Option.some.inj he).symm
  have hne : ∀ m ∈ H, m ≠ n := by
    rintro m hm rfl
    exact (List.nodup_cons.mp h.distinct).1 hm
  exact
    { held := fun m hm => by
        obtain ⟨hlt, hI, halive⟩ := h.held m (List.mem_cons_of_mem _ hm)
        exact ⟨hlt, hI, (hother m (hne m hm)).trans halive⟩
      distinct := (List.nodup_cons.mp h.distinct).2
      adopting := fun m hm => by
        obtain ⟨hm', halive⟩ := h.adopting m hm
        obtain rfl | hm' := List.mem_cons.mp hm'
        · exact absurd hm hA
        · exact ⟨hm', halive⟩
      lt := h.lt
      unique := h.unique
      tracked := h.tracked
      dying := h.dying
      paired := fun m hm => (h.paired m hm).trans (hother m fun he => hnot (he ▸ hm)).symm
      view := h.view
      context := fun m hm => by
        by_cases he : m = n
        · subst he
          simp at hm
        · obtain hI | hm := h.context m ((hother m he).symm.trans hm)
          · exact .inl hI
          · exact .inr ((List.mem_cons.mp hm).resolve_left he) }

/-! ### What a step does to the owners -/

/-- The owners in a state, with the calls that are under way. -/
def OwnedIn (I : ℕ → Prop) (s : Runtime) : Prop :=
  Owned I (heldBy s.stack) (adoptingBy s.stack) (dyingIn s.stack) s

theorem adoptingBy_subset (frames : List Frame) : ∀ n ∈ adoptingBy frames, n ∈ heldBy frames := by
  intro n hn
  obtain ⟨frame, hframe, he⟩ := List.mem_filterMap.mp hn
  obtain ⟨install, hinstall, rfl⟩ := Option.map_eq_some_iff.mp he
  refine List.mem_filterMap.mpr ⟨frame, hframe, ?_⟩
  have hpending := Frame.pending_of_adopting hinstall
  cases frame with
  | failed context => cases hinstall
  | _ => exact hpending

theorem Owned.notMem_adoptingBy (h : Owned I (n :: heldBy frames) A D s) :
    n ∉ adoptingBy frames := fun hn =>
  (List.nodup_cons.mp h.distinct).1 (adoptingBy_subset frames n hn)

/-- What was installed before (`I`) and what is installed now has an owner. -/
def KeptOwned (I : ℕ → Prop) (r : Runtime × List Obs) : Prop :=
  OwnedIn (fun n => I n ∨ ∃ moduleName, .moduleViewInstalled moduleName n ∈ r.2) r.1

theorem OwnedIn.congr (h : OwnedIn I s) (hI : ∀ n, I' n ↔ I n) : OwnedIn I' s := by
  obtain rfl : I' = I := funext fun n => propext (hI n)
  exact h

/-- Nothing is installed. -/
theorem OwnedIn.kept {os : List Obs} (h : OwnedIn I s)
    (hos : ∀ name n, .moduleViewInstalled name n ∉ os) : KeptOwned I (s, os) := by
  refine h.congr fun n => ?_
  constructor
  · rintro (hI | ⟨name, hname⟩)
    · exact hI
    · exact absurd hname (hos name n)
  · exact .inl

theorem Owned.adopt_kept
    (h : Owned I (n :: heldBy s.stack) (n :: adoptingBy s.stack) (dyingIn s.stack) s) :
    KeptOwned I (s.adopt moduleName n) := by
  refine OwnedIn.congr (I := fun m => I m ∨ m = n) ?_ fun m => by simp [Runtime.adopt]
  exact (h.adopt (adoptingBy_subset _)).restack _

/-- A removal, on its own or in an installation whose view has been created. -/
theorem Owned.removeModuleView {install : Option (String × ℕ)}
    (h : Owned I ((install.map (·.2)).toList ++ heldBy s.stack)
      ((install.map (·.2)).toList ++ adoptingBy s.stack) (dyingIn s.stack) s) :
    KeptOwned I (s.removeModuleView moduleName install) := by
  unfold Runtime.removeModuleView
  cases hn : s.views.lookup moduleName with
  | none =>
      cases install with
      | none => exact OwnedIn.kept h (by simp)
      | some install => exact h.adopt_kept
  | some n =>
      refine OwnedIn.kept ?_ (by simp)
      have hremoved := (h.remove hn).restack (.destroying n install :: s.stack)
      cases install <;> exact hremoved

theorem OwnedIn.fail (h : Owned I (context.toList ++ heldBy s.stack) (adoptingBy s.stack)
    (dyingIn s.stack) s) : KeptOwned I (s.fail moduleName error context) := by
  refine OwnedIn.kept ?_ (by simp)
  have hfailed : Owned I (context.toList ++ heldBy s.stack) (adoptingBy s.stack) (dyingIn s.stack)
      { s with lastError := error } :=
    ⟨h.held, h.distinct, h.adopting, h.lt, h.unique, h.tracked, h.dying, h.paired, h.view,
      h.context⟩
  have hpushed := hfailed.restack (.failed context :: s.stack)
  cases context <;> exact hpushed

theorem OwnedIn.installModuleView (h : OwnedIn I s) (compileError : Option String) :
    KeptOwned I (s.installModuleView moduleName compileError) := by
  unfold Runtime.installModuleView
  split
  · exact OwnedIn.fail h
  · split
    · exact OwnedIn.fail h
    · split
      · exact OwnedIn.fail h
      · refine OwnedIn.kept ?_ (by simp)
        have hbegun := (Owned.begin h).restack (.creating moduleName s.created :: s.stack)
        exact hbegun

theorem OwnedIn.resume {r : Runtime × List Obs}
    (h : OwnedIn I { s with stack := frame :: frames })
    (hr : ({ s with stack := frames } : Runtime).resume frame = some r) : KeptOwned I r := by
  cases frame with
  | creating name n => cases hr
  | destroying n install =>
      obtain rfl := Option.some.inj hr
      refine OwnedIn.kept ?_ (by simp)
      have hdestroyed := (Owned.destroy (D := dyingIn frames) h).restack (.removed install :: frames)
      exact hdestroyed
  | removed install =>
      obtain rfl := Option.some.inj hr
      have hpopped := Owned.restack h frames
      cases install with
      | none => exact OwnedIn.kept hpopped (by simp)
      | some install => exact Owned.adopt_kept hpopped
  | installed n =>
      obtain rfl := Option.some.inj hr
      have hpushed := Owned.restack h (.changed n :: frames)
      exact OwnedIn.kept hpushed (by simp)
  | changed n =>
      obtain rfl := Option.some.inj hr
      have hpopped := Owned.restack h frames
      exact OwnedIn.kept hpopped (by simp)
  | failed context =>
      obtain rfl := Option.some.inj hr
      refine OwnedIn.kept ?_ (by simp)
      cases context with
      | none =>
          have hpopped := Owned.restack h frames
          exact hpopped
      | some n =>
          have hheld : Owned I (n :: heldBy frames) (adoptingBy frames) (dyingIn frames)
              { s with stack := frames } := Owned.restack h frames
          exact hheld.drop hheld.notMem_adoptingBy

theorem OwnedIn.step {a : Action} {r : Runtime × List Obs} (h : OwnedIn I s)
    (hs : step s a = some r) : KeptOwned I r := by
  cases step_effect hs with
  | install name compileError => exact h.installModuleView compileError
  | remove name => exact Owned.removeModuleView h
  | @created name n frames hstack =>
      rw [stack_eq hstack] at h
      have hpopped : Owned I (n :: heldBy frames) (adoptingBy frames) (dyingIn frames)
          { s with stack := frames } := Owned.restack h frames
      have hcreated := hpopped.created
      exact Owned.removeModuleView hcreated
  | @createFailed name n frames error hstack =>
      rw [stack_eq hstack] at h
      have hpopped : Owned I (n :: heldBy frames) (adoptingBy frames) (dyingIn frames)
          { s with stack := frames } := Owned.restack h frames
      exact OwnedIn.fail hpopped
  | returned hstack hr =>
      rw [stack_eq hstack] at h
      exact h.resume hr

/-- The views that were installed among these observations. -/
def installedBy (tr : List Obs) : List ℕ := tr.filterMap fun
  | .moduleViewInstalled _ n => some n
  | _ => none

theorem mem_installedBy {tr : List Obs} :
    n ∈ installedBy tr ↔ ∃ moduleName, .moduleViewInstalled moduleName n ∈ tr := by
  constructor
  · intro h
    obtain ⟨o, ho, he⟩ := List.mem_filterMap.mp h
    cases o with
    | moduleViewInstalled name m =>
        obtain rfl := Option.some.inj he
        exact ⟨name, ho⟩
    | _ => cases he
  · rintro ⟨name, ho⟩
    exact List.mem_filterMap.mpr ⟨_, ho, rfl⟩

theorem installedBy_removeModuleView (moduleName : String) (install : Option (String × ℕ))
    (s : Runtime) : installedBy (s.removeModuleView moduleName install).2 = [] ∨
      ∃ n ∈ install.map (·.2), installedBy (s.removeModuleView moduleName install).2 = [n] := by
  unfold Runtime.removeModuleView
  split
  · cases install with
    | none => exact .inl rfl
    | some install => exact .inr ⟨install.2, rfl, rfl⟩
  · exact .inl rfl

/-- A step installs nothing, or one view that a call has held. -/
theorem step_installs {a : Action} {r : Runtime × List Obs} (hs : step s a = some r) :
    installedBy r.2 = [] ∨ ∃ n ∈ heldBy s.stack, installedBy r.2 = [n] := by
  cases step_effect hs with
  | install name compileError =>
      left
      unfold Runtime.installModuleView
      split
      · rfl
      · split
        · rfl
        · split <;> rfl
  | remove name =>
      obtain he | ⟨n, hn, -⟩ := installedBy_removeModuleView name none s
      · exact .inl he
      · cases hn
  | @created name n frames hstack =>
      obtain he | ⟨m, hm, he⟩ := installedBy_removeModuleView name (some (name, n))
        { s with viewAlive := Function.update s.viewAlive n true, stack := frames }
      · exact .inl he
      · obtain rfl : n = m := Option.some.inj hm
        refine .inr ⟨n, ?_, he⟩
        rw [hstack]
        exact List.mem_cons_self
  | createFailed hstack => exact .inl rfl
  | @returned frame frames r hstack hr =>
      cases frame with
      | creating name n => cases hr
      | destroying n install =>
          obtain rfl := Option.some.inj hr
          exact .inl rfl
      | removed install =>
          obtain rfl := Option.some.inj hr
          cases install with
          | none => exact .inl rfl
          | some install =>
              refine .inr ⟨install.2, ?_, rfl⟩
              rw [hstack]
              exact List.mem_cons_self
      | installed n | changed n | failed context =>
          obtain rfl := Option.some.inj hr
          exact .inl rfl

theorem OwnedIn.initial (engine : Bool) : OwnedIn (fun _ => False) (machine engine).init where
  held := nofun
  distinct := List.nodup_nil
  adopting := nofun
  lt := nofun
  unique _ _ _ := nofun
  tracked _ _ := nofun
  dying := nofun
  paired := nofun
  view _ := nofun
  context _ := nofun

/-- What was installed is adopted in the order of the signals, each view once. -/
theorem OwnedIn.adopts {adopted : List ℕ} {a : Action} {r : Runtime × List Obs}
    (h : OwnedIn (· ∈ adopted) s) (hnodup : adopted.Nodup) (hs : WebRuntime.step s a = some r) :
    OwnedIn (· ∈ adopted ++ installedBy r.2) r.1 ∧ (adopted ++ installedBy r.2).Nodup := by
  constructor
  · refine (h.step hs).congr fun n => ?_
    rw [List.mem_append, mem_installedBy]
  · obtain he | ⟨n, hn, he⟩ := step_installs hs
    · rwa [he, List.append_nil]
    · rw [he]
      refine List.nodup_append.mpr ⟨hnodup, List.nodup_singleton n, ?_⟩
      intro m hm m' hm'
      obtain rfl := List.mem_singleton.mp hm'
      rintro rfl
      exact (h.held m hn).2.1 hm

/-! ### Views that nothing tracks -/

/-- The view is alive, and neither the map nor a call under way knows it. -/
def Stray (A D : List ℕ) (s : Runtime) (n : ℕ) : Prop :=
  s.viewAlive n = true ∧ (∀ name, s.views.lookup name ≠ some n) ∧ n ∉ A ∧ n ∉ D

def StrayIn (s : Runtime) (n : ℕ) : Prop := Stray (adoptingBy s.stack) (dyingIn s.stack) s n

/-- An installation found view `n` under its name when it entered its own. -/
def Overwrites (n : ℕ) (s : Runtime) (os : List Obs) : Prop :=
  ∃ moduleName n', .moduleViewInstalled moduleName n' ∈ os ∧ s.views.lookup moduleName = some n

/-- An installation has overwritten the view. -/
def Overwritten (h : History) (n : ℕ) : Prop := ∃ m ∈ h, Overwrites n m.before m.os

theorem overwritten_append {h : History} {m : Machine.Taken Runtime Action Obs} :
    Overwritten (h ++ [m]) n ↔ Overwritten h n ∨ Overwrites n m.before m.os := by
  simp only [Overwritten, List.mem_append, List.mem_singleton, or_and_right, exists_or,
    exists_eq_left]

/-- A view that was created just now belongs to its call. -/
theorem Owned.created_stray (h : Owned I (n :: H) A D s) (hA : n ∉ A) (m : ℕ) :
    Stray (n :: A) D { s with viewAlive := Function.update s.viewAlive n true } m ↔
      Stray A D s m := by
  obtain rfl | hm := eq_or_ne m n
  · refine iff_of_false (fun hstray => hstray.2.2.1 List.mem_cons_self) fun hstray => ?_
    obtain hI | hmem := h.view m hstray.1
    · exact (h.held m List.mem_cons_self).2.1 hI
    · exact hA hmem
  · constructor
    · rintro ⟨halive, huntracked, hnot, hD⟩
      refine ⟨?_, huntracked, fun hmem => hnot (List.mem_cons_of_mem _ hmem), hD⟩
      exact (Function.update_of_ne hm ..).symm.trans halive
    · rintro ⟨halive, huntracked, hnot, hD⟩
      refine ⟨?_, huntracked, fun hmem => hnot ((List.mem_cons.mp hmem).resolve_left hm), hD⟩
      exact (Function.update_of_ne hm ..).trans halive

/-- A view that is taken out of the map belongs to the call that destroys it. -/
theorem remove_stray (hn : s.views.lookup moduleName = some n) (m : ℕ) :
    Stray A (n :: D) { s with
      views := s.views.erase moduleName
      order := s.order.filter (· ≠ moduleName) } m ↔ Stray A D s m := by
  constructor
  · rintro ⟨halive, huntracked, hA, hD⟩
    refine ⟨halive, fun name hname => ?_, hA, fun hmem => hD (List.mem_cons_of_mem _ hmem)⟩
    by_cases he : name = moduleName
    · subst he
      obtain rfl := Option.some.inj (hn.symm.trans hname)
      exact hD List.mem_cons_self
    · exact huntracked name ((AList.lookup_erase_ne he).trans hname)
  · rintro ⟨halive, huntracked, hA, hD⟩
    refine ⟨halive, fun name hname => ?_, hA, fun hmem => ?_⟩
    · by_cases he : name = moduleName
      · rw [he, AList.lookup_erase] at hname
        cases hname
      · exact huntracked name ((AList.lookup_erase_ne he).symm.trans hname)
    · obtain rfl | hmem := List.mem_cons.mp hmem
      · exact huntracked moduleName hn
      · exact hD hmem

theorem destroy_stray (m : ℕ) : Stray A D { s with
      viewAlive := Function.update s.viewAlive n false
      contextAlive := Function.update s.contextAlive n false } m ↔ Stray A (n :: D) s m := by
  obtain rfl | hm := eq_or_ne m n
  · refine iff_of_false (fun hstray => ?_) fun hstray => hstray.2.2.2 List.mem_cons_self
    simpa using hstray.1
  · constructor
    · rintro ⟨halive, huntracked, hA, hD⟩
      refine ⟨?_, huntracked, hA, fun hmem => hD ((List.mem_cons.mp hmem).resolve_left hm)⟩
      exact (Function.update_of_ne hm ..).symm.trans halive
    · rintro ⟨halive, huntracked, hA, hD⟩
      refine ⟨?_, huntracked, hA, fun hmem => hD (List.mem_cons_of_mem _ hmem)⟩
      exact (Function.update_of_ne hm ..).trans halive

/-- A view that enters the map lets the one it finds there go astray. -/
theorem Owned.adopt_stray (h : Owned I (n :: H) (n :: A) D s) (hA : ∀ m ∈ A, m ∈ H) (m : ℕ) :
    Stray A D { s with
      views := s.views.insert moduleName n
      order := s.order ++ [moduleName]
      lastError := "" } m ↔
        Stray (n :: A) D s m ∨ s.views.lookup moduleName = some m := by
  have hnew : ∀ name, s.views.lookup name ≠ some n := fun name hname =>
    (h.held n List.mem_cons_self).2.1 (h.tracked name n hname).1
  constructor
  · rintro ⟨halive, huntracked, hnot, hD⟩
    have hm : m ≠ n := by
      rintro rfl
      exact huntracked moduleName (AList.lookup_insert _)
    by_cases hfound : s.views.lookup moduleName = some m
    · exact .inr hfound
    · refine .inl ⟨halive, fun name hname => ?_,
        fun hmem => hnot ((List.mem_cons.mp hmem).resolve_left hm), hD⟩
      by_cases he : name = moduleName
      · exact hfound (he ▸ hname)
      · exact huntracked name ((AList.lookup_insert_ne he).trans hname)
  · rintro (⟨halive, huntracked, hnot, hD⟩ | hfound)
    · refine ⟨halive, fun name hname => ?_, fun hmem => hnot (List.mem_cons_of_mem _ hmem), hD⟩
      by_cases he : name = moduleName
      · rw [he, AList.lookup_insert] at hname
        obtain rfl := Option.some.inj hname
        exact hnot List.mem_cons_self
      · exact huntracked name ((AList.lookup_insert_ne he).symm.trans hname)
    · obtain ⟨hI, halive, hD⟩ := h.tracked moduleName m hfound
      refine ⟨halive, fun name hname => ?_, fun hmem => ?_, hD⟩
      · by_cases he : name = moduleName
        · rw [he, AList.lookup_insert] at hname
          obtain rfl := Option.some.inj hname
          exact hnew moduleName hfound
        · exact he (h.unique _ _ _ hfound ((AList.lookup_insert_ne he).symm.trans hname))
      · exact (h.held m (List.mem_cons_of_mem _ (hA m hmem))).2.1 hI

/-- What strays after some steps of a call from `s` on. -/
def Strays (A D : List ℕ) (s : Runtime) (r : Runtime × List Obs) : Prop :=
  ∀ n, StrayIn r.1 n ↔ Stray A D s n ∨ Overwrites n s r.2

/-- Nothing is installed. -/
theorem strays_of_quiet {r : Runtime × List Obs} (h : ∀ n, StrayIn r.1 n ↔ Stray A D s n)
    (hos : ∀ name n, .moduleViewInstalled name n ∉ r.2) : Strays A D s r := by
  intro n
  rw [h n]
  constructor
  · exact .inl
  · rintro (hstray | ⟨name, n', hm, -⟩)
    · exact hstray
    · exact absurd hm (hos name n')

theorem Owned.strays_adopt
    (h : Owned I (n :: heldBy s.stack) (n :: adoptingBy s.stack) (dyingIn s.stack) s) :
    Strays (n :: adoptingBy s.stack) (dyingIn s.stack) s (s.adopt moduleName n) := by
  intro m
  have hover : Overwrites m s (s.adopt moduleName n).2 ↔ s.views.lookup moduleName = some m := by
    constructor
    · rintro ⟨name, n', hm, hname⟩
      obtain ⟨rfl, -⟩ := Obs.moduleViewInstalled.inj (List.mem_singleton.mp hm)
      exact hname
    · intro hfound
      exact ⟨moduleName, n, List.mem_singleton.mpr rfl, hfound⟩
  rw [hover, ← h.adopt_stray (adoptingBy_subset _)]
  exact Iff.rfl

theorem Owned.strays_remove {install : Option (String × ℕ)}
    (h : Owned I ((install.map (·.2)).toList ++ heldBy s.stack)
      ((install.map (·.2)).toList ++ adoptingBy s.stack) (dyingIn s.stack) s) :
    Strays ((install.map (·.2)).toList ++ adoptingBy s.stack) (dyingIn s.stack) s
      (s.removeModuleView moduleName install) := by
  unfold Runtime.removeModuleView
  cases hn : s.views.lookup moduleName with
  | none =>
      cases install with
      | none => exact strays_of_quiet (fun _ => Iff.rfl) (by simp [Runtime.afterRemoval])
      | some install => exact h.strays_adopt
  | some n =>
      refine strays_of_quiet (fun m => ?_) (by simp)
      rw [← remove_stray hn]
      cases install <;> exact Iff.rfl

theorem strays_fail (moduleName error : String) (context : Option ℕ) (s : Runtime) :
    Strays (adoptingBy s.stack) (dyingIn s.stack) s (s.fail moduleName error context) :=
  strays_of_quiet (fun _ => Iff.rfl) (by simp [Runtime.fail])

theorem strays_install (moduleName : String) (compileError : Option String) (s : Runtime) :
    Strays (adoptingBy s.stack) (dyingIn s.stack) s
      (s.installModuleView moduleName compileError) := by
  unfold Runtime.installModuleView
  split
  · exact strays_fail moduleName _ none s
  · split
    · exact strays_fail moduleName _ none s
    · split
      · exact strays_fail moduleName _ none s
      · exact strays_of_quiet (fun _ => Iff.rfl) (by simp)

theorem OwnedIn.strays_resume {r : Runtime × List Obs}
    (h : OwnedIn I { s with stack := frame :: frames })
    (hr : ({ s with stack := frames } : Runtime).resume frame = some r) :
    Strays (adoptingBy (frame :: frames)) (dyingIn (frame :: frames)) { s with stack := frames }
      r := by
  cases frame with
  | creating name n => cases hr
  | destroying n install =>
      obtain rfl := Option.some.inj hr
      refine strays_of_quiet (fun m => ?_) (by simp)
      exact destroy_stray m
  | removed install =>
      obtain rfl := Option.some.inj hr
      cases install with
      | none => exact strays_of_quiet (fun _ => Iff.rfl) (by simp [Runtime.afterRemoval])
      | some install =>
          have hpopped := Owned.restack h frames
          exact Owned.strays_adopt hpopped
  | installed n | changed n | failed context =>
      obtain rfl := Option.some.inj hr
      exact strays_of_quiet (fun _ => Iff.rfl) (by simp)

/-- A view goes astray when an installation overwrites it, and only then. -/
theorem OwnedIn.strays {a : Action} {r : Runtime × List Obs} (h : OwnedIn I s)
    (hs : WebRuntime.step s a = some r) (n : ℕ) : StrayIn r.1 n ↔ StrayIn s n ∨ Overwrites n s r.2 := by
  have htop : ∀ {frame frames}, s.stack = frame :: frames →
      (StrayIn s n ↔ Stray (adoptingBy (frame :: frames)) (dyingIn (frame :: frames)) s n) := by
    intro frame frames hstack
    rw [StrayIn, hstack]
  cases step_effect hs with
  | install name compileError => exact strays_install name compileError s n
  | remove name =>
      have hremoved : Strays (adoptingBy s.stack) (dyingIn s.stack) s
          (s.removeModuleView name none) := Owned.strays_remove h
      exact hremoved n
  | @created name m frames hstack =>
      rw [stack_eq hstack] at h
      have hpopped : Owned I (m :: heldBy frames) (adoptingBy frames) (dyingIn frames)
          { s with stack := frames } := Owned.restack h frames
      have hcreated : Owned I (m :: heldBy frames) (m :: adoptingBy frames) (dyingIn frames)
          { s with viewAlive := Function.update s.viewAlive m true, stack := frames } :=
        hpopped.created
      have hremoved : Strays (m :: adoptingBy frames) (dyingIn frames)
          { s with viewAlive := Function.update s.viewAlive m true, stack := frames }
          (({ s with stack := frames } : Runtime).create name m) :=
        Owned.strays_remove (s := { s with viewAlive := _, stack := frames }) hcreated
      rw [htop hstack]
      exact (hremoved n).trans
        (or_congr_left (hpopped.created_stray hpopped.notMem_adoptingBy n))
  | @createFailed name m frames error hstack =>
      rw [htop hstack]
      exact strays_fail name _ (some m) { s with stack := frames } n
  | @returned frame frames r hstack hr =>
      rw [stack_eq hstack] at h
      rw [htop hstack]
      exact h.strays_resume hr n

/-- The views that stray are those that were overwritten, and stay so. -/
theorem strayIn_append {h : History} (hstrays : ∀ n, Overwritten h n ↔ StrayIn s n)
    (howned : OwnedIn I s) {a : Action} {r : Runtime × List Obs} (hs : step s a = some r) (n : ℕ) :
    Overwritten (h ++ [⟨s, a, r.2, r.1⟩]) n ↔ StrayIn r.1 n := by
  rw [overwritten_append, hstrays n, howned.strays hs n]

theorem strayIn_initial (engine : Bool) (n : ℕ) :
    Overwritten [] n ↔ StrayIn (machine engine).init n := by
  refine iff_of_false (fun h => ?_) fun h => ?_
  · obtain ⟨m, hm, -⟩ := h
    cases hm
  · cases h.1

end LogosViewRuntime.WebRuntime
