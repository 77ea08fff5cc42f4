import LogosViewRuntime.EmscriptenHandles
import LogosViewRuntime.LoopbackPrefix

/-! # Two wasm images and a message channel

The QML runtime and a module's host are two images, each of which was handed one end of a channel.
Either end may be handed over long before or after the other side writes, and started later still.
`page_is_a_channel` says that none of this matters: what a port receives is what was posted on the
port at the other end, in order and once, from the first message on. -/

namespace LogosViewRuntime.Emscripten

open Reactive
open Loopback (QByteArray)

/-! ### One object in a run -/

/-- The messages that arrived at an object. -/
def arrivals (port : ℕ) (tr : List Obs) : List QByteArray := tr.filterMap fun
  | .arrived p message => if p = port then some message else none
  | _ => none

/-- What a port makes of messages: empty ones are not received. -/
def audible (messages : List QByteArray) : List QByteArray := messages.filter (· ≠ [])

@[simp] theorem audible_append (l l' : List QByteArray) :
    audible (l ++ l') = audible l ++ audible l' := List.filter_append ..

@[simp] theorem arrivals_append (port : ℕ) (tr os : List Obs) :
    arrivals port (tr ++ os) = arrivals port tr ++ arrivals port os := List.filterMap_append

/-- A port was made around the object. -/
def wrapped (port : ℕ) (tr : List Obs) : Bool := tr.any fun
  | .constructed _ p => p = port
  | _ => false

/-- The object is wrapped at most once, and the page does not deliver with its port's handle. -/
def Sole (port : ℕ) (tr : List Obs) (_ : Image) : Action → Prop
  | .construct p | .adopt _ p => p = port → wrapped port tr = false
  | .deliver handle _ => .constructed handle port ∉ tr
  | _ => True

instance (port : ℕ) (tr : List Obs) (s : Image) : (a : Action) → Decidable (Sole port tr s a)
  | .construct p | .adopt _ p => inferInstanceAs (Decidable (p = port → wrapped port tr = false))
  | .deliver handle _ => inferInstanceAs (Decidable (.constructed handle port ∉ tr))
  | .destroy _ | .start _ | .post .. | .close _ | .arrive .. | .dispatch _ =>
      inferInstanceAs (Decidable True)

variable {tr os : List Obs} {s s' : Image} {handle port : ℕ}

theorem notMem_of_not_wrapped (h : wrapped port tr = false) :
    .constructed handle port ∉ tr := by
  intro hm
  simpa using List.any_eq_false.mp h _ hm

/-- A handle wraps one object. -/
theorem port_unique (horder : Machine.Each InTurn tr) {port' : ℕ}
    (h : .constructed handle port ∈ tr) (h' : .constructed handle port' ∈ tr) : port = port' := by
  obtain ⟨before, after, rfl⟩ := List.append_of_mem h
  have hlater : ∀ {before after : List Obs} {o : Obs} {p : ℕ},
      Machine.Each InTurn (before ++ .constructed handle p :: after) → o ∈ after →
      ∀ p', o ≠ .constructed handle p' := by
    rintro before after o p horder ho p' rfl
    obtain ⟨mid, rest, rfl⟩ := List.append_of_mem ho
    have hfirst := horder before _ _ rfl
    have hsecond : InTurn (before ++ .constructed handle p :: mid) (.constructed handle p') :=
      horder _ _ rest (by simp)
    simp only [InTurn, handles_append, List.length_append] at hfirst hsecond
    have hpos : 0 < (handles (.constructed handle p :: mid)).length :=
      List.length_pos_of_mem (mem_handles.mpr ⟨p, List.mem_cons_self⟩)
    omega
  obtain hm | hm := List.mem_append.mp h'
  · obtain ⟨mid, rest, rfl⟩ := List.append_of_mem hm
    rw [List.append_assoc] at horder
    exact absurd rfl (hlater horder (List.mem_append_right _ List.mem_cons_self) port)
  · obtain he | hm := List.mem_cons.mp hm
    · exact (Obs.constructed.inj he).2.symm
    · exact absurd rfl (hlater horder hm port')

/-- A port that was started was made. -/
theorem made_of_attached (horder : Machine.Each InTurn tr) (h : .attached handle port ∈ tr) :
    .constructed handle port ∈ tr := by
  obtain ⟨before, after, rfl⟩ := List.append_of_mem h
  exact List.mem_append_left _ (horder before _ after rfl).1.made

/-- A port that was not made has received nothing. -/
theorem received_of_fresh (horder : Machine.Each InTurn tr) (hfresh : handle ∉ handles tr) :
    received handle tr = [] := by
  rw [received, List.filterMap_eq_nil_iff]
  intro o ho
  cases o with
  | messageReceived h message =>
      obtain ⟨before, after, rfl⟩ := List.append_of_mem ho
      obtain ⟨-, ⟨port, hopen⟩, -⟩ := horder before _ after rfl
      have hne : h ≠ handle := by
        rintro rfl
        exact hfresh (mem_handles.mpr ⟨port, List.mem_append_left _ hopen.made⟩)
      simp [hne]
  | _ => rfl

/-! ### What one delivery does -/

theorem received_deliverFromJs_ne {h : ℕ} (hne : h ≠ handle) (data : QByteArray) (s : Image) :
    received handle (s.deliverFromJs h data) = [] := by
  unfold Image.deliverFromJs
  split
  · simp [received]
  · split_ifs <;> simp [received, hne]

theorem received_deliverFromJs (data : QByteArray) (s : Image) :
    received handle (s.deliverFromJs handle data) =
      if s.isOpen handle = true then audible [data] else [] := by
  unfold Image.deliverFromJs Image.isOpen
  cases hl : s.ports.lookup handle with
  | none => simp [received]
  | some p =>
      cases hopened : p.opened with
      | false => simp [received, hopened]
      | true => by_cases hdata : data = [] <;> simp [received, audible, hopened, hdata]

theorem arrivals_deliverFromJs (h : ℕ) (data : QByteArray) (s : Image) :
    arrivals port (s.deliverFromJs h data) = [] := by
  unfold Image.deliverFromJs
  split
  · simp [arrivals]
  · split_ifs <;> simp [arrivals]

theorem notMem_deliverFromJs (h : ℕ) (data : QByteArray) (s : Image) :
    .constructed handle port ∉ s.deliverFromJs h data ∧ .closed handle ∉ s.deliverFromJs h data ∧
      .destroyed handle ∉ s.deliverFromJs h data := by
  unfold Image.deliverFromJs
  split
  · simp
  · split_ifs <;> simp

/-- Messages may go from a queue or come to it. -/
theorem onmessage_setJs (i : ℕ) (queue : List QByteArray) (s : Image) (j : ℕ) :
    ((s.setJs i { s.js i with queue }).js j).onmessage = (s.js j).onmessage := by
  simp only [Image.setJs, Function.update_apply]
  split_ifs with hj
  · rw [hj]
  · rfl

/-- A port is open in the run if it is open. -/
theorem Sound.open_iff (h : Sound tr s) (hmade : .constructed handle port ∈ tr) :
    Open handle port tr ↔ s.isOpen handle = true := by
  unfold Image.isOpen
  cases hl : s.ports.lookup handle with
  | none =>
      refine ⟨fun hopen => absurd hopen ?_, by simp⟩
      exact h.toRegistered.not_open (fun p hp => by simp [hl] at hp) port
  | some p =>
      obtain ⟨hp, -⟩ := h.port handle p hl
      obtain rfl := port_unique h.order hmade hp
      refine ⟨fun hopen => ?_, fun hopened => h.toRegistered.open hl hopened⟩
      exact (h.port handle p hl).2.2.1.mpr hopen.unclosed

/-! ### What is kept of the messages -/

/-- What arrived at the object was received or waits, and waits until its port is started. -/
structure Streams (port : ℕ) (tr : List Obs) (s : Image) : Prop where
  wired : ∀ i h, (s.js i).onmessage = some h → .attached h i ∈ tr
  enabled : (s.js port).enabled = true → (s.js port).onmessage ≠ none
  alone : ∀ h h', .constructed h port ∈ tr → .constructed h' port ∈ tr → h = h'
  held : (s.js port).onmessage = none → (s.js port).queue = arrivals port tr ∧
    ∀ h, .constructed h port ∈ tr → received h tr = []
  within : ∀ h, .constructed h port ∈ tr → received h tr <+: audible (arrivals port tr)
  whole : ∀ h, Open h port tr →
    received h tr ++ audible (s.js port).queue = audible (arrivals port tr)

namespace Streams

theorem initial (port : ℕ) : Streams port [] {} where
  wired := by simp
  enabled := by simp
  alone := by simp
  held _ := ⟨rfl, by simp⟩
  within := by simp
  whole _ h := absurd h.made List.not_mem_nil

/-- A step at which nothing is made or heard at the object. -/
theorem quiet (h : Streams port tr s) (hjs : s'.js port = s.js port)
    (honmessage : ∀ i, (s'.js i).onmessage = (s.js i).onmessage)
    (hmade : ∀ handle, .constructed handle port ∉ os) (harrivals : arrivals port os = [])
    (hreceived : ∀ handle, .constructed handle port ∈ tr → received handle os = []) :
    Streams port (tr ++ os) s' := by
  have hold : ∀ {handle}, .constructed handle port ∈ tr ++ os → .constructed handle port ∈ tr :=
    fun hm => (List.mem_append.mp hm).resolve_right (hmade _)
  refine ⟨fun i handle hi => ?_, ?_, fun _ _ hm hm' => h.alone _ _ (hold hm) (hold hm'),
    fun hnone => ?_, fun handle hm => ?_, fun handle hopen => ?_⟩
  · exact List.mem_append_left _ (h.wired i handle (honmessage i ▸ hi))
  · rw [hjs]
    exact h.enabled
  · rw [hjs] at hnone ⊢
    obtain ⟨hqueue, hnothing⟩ := h.held hnone
    refine ⟨by rw [arrivals_append, harrivals, List.append_nil, hqueue], fun handle hm => ?_⟩
    rw [received_append, hreceived handle (hold hm), List.append_nil, hnothing handle (hold hm)]
  · rw [received_append, hreceived handle (hold hm), arrivals_append, harrivals, List.append_nil,
      List.append_nil]
    exact h.within handle (hold hm)
  · have hm := hold hopen.made
    rw [received_append, hreceived handle hm, arrivals_append, harrivals, List.append_nil,
      List.append_nil, hjs]
    exact h.whole handle ⟨hm, fun hc => hopen.unclosed (List.mem_append_left _ hc),
      fun hd => hopen.there (List.mem_append_left _ hd)⟩

/-- A port is made around the object, for the first time. -/
theorem construct (h : Streams port tr s) (hsound : Sound tr s)
    (hfew : (handles tr).length + 1 < 2 ^ 31) (hsole : wrapped port tr = false) :
    Streams port (tr ++ (s.construct port).2) (s.construct port).1 := by
  have hunwired : (s.js port).onmessage = none := by
    cases hm : (s.js port).onmessage with
    | none => rfl
    | some handle =>
        exact absurd (made_of_attached hsound.order (h.wired port handle hm))
          (notMem_of_not_wrapped hsole)
  have hone : ∀ {handle}, .constructed handle port ∈ tr ++ (s.construct port).2 →
      handle = s.nextHandle := by
    intro handle hm
    obtain hm | hm := List.mem_append.mp hm
    · exact absurd hm (notMem_of_not_wrapped hsole)
    · exact (Obs.constructed.inj (List.mem_singleton.mp hm)).1
  have hnothing : received s.nextHandle (tr ++ (s.construct port).2) = [] := by
    rw [received_append,
      received_of_fresh hsound.order (hsound.toRegistered.fresh hfew hsound.order)]
    rfl
  have harrivals : arrivals port (tr ++ (s.construct port).2) = arrivals port tr := by
    rw [arrivals_append]
    exact List.append_nil _
  obtain ⟨hqueue, -⟩ := h.held hunwired
  refine ⟨fun i handle hi => List.mem_append_left _ (h.wired i handle hi), h.enabled,
    fun _ _ hm hm' => (hone hm).trans (hone hm').symm, fun _ => ⟨?_, fun handle hm => ?_⟩,
    fun handle hm => ?_, fun handle hopen => ?_⟩
  · rw [harrivals]
    exact hqueue
  · rw [hone hm, hnothing]
  · rw [hone hm, hnothing]
    exact List.nil_prefix
  · rw [hone hopen.made, hnothing, harrivals, ← hqueue]
    rfl

/-- A port is attached to its object, this one or another. -/
theorem attach (h : Streams port tr s) (handle i : ℕ) :
    Streams port (tr ++ (s.attach handle i).2) (s.attach handle i).1 := by
  have hold : ∀ {h' p}, .constructed h' p ∈ tr ++ (s.attach handle i).2 →
      .constructed h' p ∈ tr := by
    intro h' p hm
    obtain hm | hm := List.mem_append.mp hm
    · exact hm
    · cases List.mem_singleton.mp hm
  have hreceived : ∀ h', received h' (tr ++ (s.attach handle i).2) = received h' tr := by
    intro h'
    rw [received_append]
    exact List.append_nil _
  have harrivals : arrivals port (tr ++ (s.attach handle i).2) = arrivals port tr := by
    rw [arrivals_append]
    exact List.append_nil _
  refine ⟨fun j h' hj => ?_, ?_, fun _ _ hm hm' => h.alone _ _ (hold hm) (hold hm'),
    fun hnone => ?_, fun h' hm => ?_, fun h' hopen => ?_⟩
  · simp only [Image.attach, Image.setJs] at hj ⊢
    by_cases hji : j = i
    · subst hji
      rw [Function.update_self] at hj
      obtain rfl := Option.some.inj hj
      simp
    · rw [Function.update_of_ne hji] at hj
      exact List.mem_append_left _ (h.wired j h' hj)
  · simp only [Image.attach, Image.setJs]
    by_cases hi : port = i
    · subst hi
      simp
    · rw [Function.update_of_ne hi]
      exact h.enabled
  · simp only [Image.attach, Image.setJs] at hnone
    by_cases hi : port = i
    · subst hi
      simp at hnone
    · rw [Function.update_of_ne hi] at hnone
      obtain ⟨hqueue, hnothing⟩ := h.held hnone
      refine ⟨?_, fun h' hm => by rw [hreceived, hnothing h' (hold hm)]⟩
      rw [harrivals]
      simp only [Image.attach, Image.setJs, Function.update_of_ne hi]
      exact hqueue
  · rw [hreceived, harrivals]
    exact h.within h' (hold hm)
  · rw [hreceived, harrivals]
    have hqueue : ((s.attach handle i).1.js port).queue = (s.js port).queue := by
      simp only [Image.attach, Image.setJs, Function.update_apply]
      split_ifs with hi
      · rw [hi]
      · rfl
    rw [hqueue]
    exact h.whole h' ⟨hold hopen.made, fun hc => hopen.unclosed (List.mem_append_left _ hc),
      fun hd => hopen.there (List.mem_append_left _ hd)⟩

/-- The other end posts a message to some object. -/
theorem arrive (h : Streams port tr s) (i : ℕ) (message : QByteArray) :
    Streams port (tr ++ [.arrived i message])
      (s.setJs i { s.js i with queue := (s.js i).queue ++ [message] }) := by
  have hold : ∀ {h' p}, .constructed h' p ∈ tr ++ [.arrived i message] →
      .constructed h' p ∈ tr := fun hm => by simpa using hm
  have hreceived : ∀ h', received h' (tr ++ [.arrived i message]) = received h' tr := by
    intro h'
    rw [received_append]
    exact List.append_nil _
  have honmessage := onmessage_setJs i ((s.js i).queue ++ [message]) s
  by_cases hi : i = port
  · subst hi
    have harrivals : arrivals i (tr ++ [.arrived i message]) = arrivals i tr ++ [message] := by
      simp [arrivals]
    refine ⟨fun j h' hj => List.mem_append_left _ (h.wired j h' (honmessage j ▸ hj)), ?_,
      fun _ _ hm hm' => h.alone _ _ (hold hm) (hold hm'), fun hnone => ?_, fun h' hm => ?_,
      fun h' hopen => ?_⟩
    · rw [honmessage]
      simpa [Image.setJs] using h.enabled
    · obtain ⟨hqueue, hnothing⟩ := h.held (honmessage i ▸ hnone)
      refine ⟨?_, fun h' hm => by rw [hreceived, hnothing h' (hold hm)]⟩
      simp [Image.setJs, harrivals, hqueue]
    · rw [hreceived, harrivals, audible_append]
      exact (h.within h' (hold hm)).trans (List.prefix_append ..)
    · have hbefore := h.whole h' ⟨hold hopen.made,
        fun hc => hopen.unclosed (List.mem_append_left _ hc),
        fun hd => hopen.there (List.mem_append_left _ hd)⟩
      rw [hreceived, harrivals, audible_append, ← hbefore]
      simp [Image.setJs]
  · exact h.quiet (by simp [Image.setJs, Function.update_of_ne (Ne.symm hi)]) honmessage (by simp)
      (by simp [arrivals, hi]) fun _ _ => rfl

/-- A delivery with the handle of another port. -/
theorem deliver_ne (h : Streams port tr s) (hother : .constructed handle port ∉ tr)
    (data : QByteArray) (hjs : s'.js port = s.js port)
    (honmessage : ∀ i, (s'.js i).onmessage = (s.js i).onmessage) :
    Streams port (tr ++ s.deliverFromJs handle data) s' := by
  refine h.quiet hjs honmessage (fun h' => (notMem_deliverFromJs handle data s).1)
    (arrivals_deliverFromJs handle data s) fun h' hm => received_deliverFromJs_ne ?_ data s
  rintro rfl
  exact hother hm

/-- The oldest message at the object goes to its port. -/
theorem hear (h : Streams port tr s) (hsound : Sound tr s)
    (hhandle : (s.js port).onmessage = some handle) {message : QByteArray}
    {queue : List QByteArray} (hqueue : (s.js port).queue = message :: queue) :
    Streams port (tr ++ s.deliverFromJs handle message)
      (s.setJs port { s.js port with queue }) := by
  have hmade := made_of_attached hsound.order (h.wired port handle hhandle)
  have hold : ∀ {h'}, .constructed h' port ∈ tr ++ s.deliverFromJs handle message →
      h' = handle := fun hm => h.alone _ _
    ((List.mem_append.mp hm).resolve_right (notMem_deliverFromJs handle message s).1) hmade
  have hwhole : Open handle port tr →
      received handle tr ++ (audible [message] ++ audible queue) = audible (arrivals port tr) := by
    intro hopen
    rw [← h.whole handle hopen, hqueue, ← audible_append]
    rfl
  refine ⟨fun j h' hj => ?_, ?_, fun _ _ hm hm' => (hold hm).trans (hold hm').symm,
    fun hnone => ?_, fun h' hm => ?_, fun h' hopen => ?_⟩
  · exact List.mem_append_left _ (h.wired j h' (onmessage_setJs port queue s j ▸ hj))
  · rw [onmessage_setJs, hhandle]
    simp
  · rw [onmessage_setJs, hhandle] at hnone
    cases hnone
  · rw [hold hm, received_append, arrivals_append, arrivals_deliverFromJs, List.append_nil,
      received_deliverFromJs]
    split_ifs with hopened
    · rw [← hwhole ((hsound.open_iff hmade).mpr hopened), ← List.append_assoc]
      exact List.prefix_append ..
    · rw [List.append_nil]
      exact h.within handle hmade
  · obtain rfl := hold hopen.made
    have hbefore : Open h' port tr := ⟨hmade, fun hc => hopen.unclosed (List.mem_append_left _ hc),
      fun hd => hopen.there (List.mem_append_left _ hd)⟩
    rw [received_append, arrivals_append, arrivals_deliverFromJs, List.append_nil,
      received_deliverFromJs, if_pos ((hsound.open_iff hmade).mp hbefore), List.append_assoc]
    simpa [Image.setJs] using hwhole hbefore

/-- The event of a message that waits at some object. -/
theorem dispatch {hasStart : ℕ → Bool} (h : Streams port tr s) (hsound : Sound tr s)
    (hstart : hasStart port = true) {i : ℕ} (hs : s.dispatch hasStart i = some (s', os)) :
    Streams port (tr ++ os) s' := by
  obtain ⟨hready, hs⟩ := Option.ite_none_left_eq_some.mp hs
  cases hqueue : (s.js i).queue with
  | nil =>
      rw [hqueue] at hs
      cases hs
  | cons message queue =>
      rw [hqueue] at hs
      obtain ⟨rfl, rfl⟩ := Prod.mk.inj (Option.some.inj hs)
      by_cases hi : i = port
      · subst hi
        have henabled : (s.js i).enabled = true := by simpa [hstart] using hready
        obtain ⟨handle, hhandle⟩ := Option.ne_none_iff_exists'.mp (h.enabled henabled)
        rw [hhandle]
        exact h.hear hsound hhandle hqueue
      · have hjs : (s.setJs i { s.js i with queue }).js port = s.js port := by
          simp [Image.setJs, Function.update_of_ne (Ne.symm hi)]
        cases hhandle : (s.js i).onmessage with
        | none => exact h.quiet hjs (onmessage_setJs i queue s) (by simp) rfl fun _ _ => rfl
        | some handle =>
            refine h.deliver_ne (fun hm => hi ?_) message hjs (onmessage_setJs i queue s)
            exact port_unique hsound.order
              (made_of_attached hsound.order (h.wired i handle hhandle)) hm

/-- The registry is none of it. -/
theorem setPort (h : Streams port tr s) (handle : ℕ) (p : Port) :
    Streams port tr (s.setPort handle p) :=
  ⟨h.wired, h.enabled, h.alone, h.held, h.within, h.whole⟩

/-- A port is made around some object. -/
theorem constructs (h : Streams port tr s) (hsound : Sound tr s) {p : ℕ}
    (hfew : (handles tr).length + 1 < 2 ^ 31) (hsole : p = port → wrapped port tr = false) :
    Streams port (tr ++ (s.construct p).2) (s.construct p).1 := by
  by_cases hp : p = port
  · subst hp
    exact h.construct hsound hfew (hsole rfl)
  · exact h.quiet rfl (fun _ => rfl) (by simp [Image.construct, Ne.symm hp]) rfl fun _ _ => rfl

theorem step {hasStart hasClose : ℕ → Bool} {a : Action} (h : Streams port tr s)
    (hsound : Sound tr s) (hstart : hasStart port = true) (hfew : Few tr s a)
    (hsole : Sole port tr s a) (hs : step hasStart hasClose s a = some (s', os)) :
    Streams port (tr ++ os) s' := by
  cases a with
  | construct p =>
      obtain ⟨rfl, rfl⟩ := Prod.mk.inj (Option.some.inj hs)
      exact h.constructs hsound hfew hsole
  | adopt name p =>
      obtain ⟨rfl, rfl⟩ := Prod.mk.inj (Option.some.inj hs)
      rw [← List.append_assoc]
      exact (h.constructs hsound hfew hsole).quiet rfl (fun _ => rfl) (by simp) rfl fun _ _ => rfl
  | destroy handle =>
      obtain ⟨p, -, he⟩ := Option.map_eq_some_iff.mp hs
      obtain ⟨rfl, rfl⟩ := Prod.mk.inj he
      exact h.quiet rfl (fun _ => rfl) (by simp) rfl fun _ _ => rfl
  | start handle =>
      obtain ⟨p, -, he⟩ := Option.map_eq_some_iff.mp hs
      unfold Image.start at he
      split_ifs at he
      · obtain ⟨rfl, rfl⟩ := Prod.mk.inj he
        exact h.quiet rfl (fun _ => rfl) (by simp) rfl fun _ _ => rfl
      · obtain ⟨rfl, rfl⟩ := Prod.mk.inj he
        exact (h.setPort handle _).attach handle p.port
  | post handle message =>
      obtain ⟨p, -, he⟩ := Option.map_eq_some_iff.mp hs
      unfold Image.post at he
      split_ifs at he <;> obtain ⟨rfl, rfl⟩ := Prod.mk.inj he <;>
        exact h.quiet rfl (fun _ => rfl) (by simp) rfl fun _ _ => rfl
  | close handle =>
      obtain ⟨p, -, he⟩ := Option.map_eq_some_iff.mp hs
      unfold Image.close at he
      split_ifs at he <;> obtain ⟨rfl, rfl⟩ := Prod.mk.inj he <;>
        exact h.quiet rfl (fun _ => rfl) (by simp) rfl fun _ _ => rfl
  | arrive p message =>
      obtain ⟨rfl, rfl⟩ := Prod.mk.inj (Option.some.inj hs)
      exact h.arrive p message
  | dispatch p => exact h.dispatch hsound hstart hs
  | deliver handle data =>
      obtain ⟨rfl, rfl⟩ := Prod.mk.inj (Option.some.inj hs)
      exact h.deliver_ne hsole data rfl fun _ => rfl

end Streams

/-- The messages at a `MessagePort` that is wrapped once, in a run of its image. -/
theorem run_streams {hasStart hasClose : ℕ → Bool} (hstart : hasStart port = true)
    (h : (machine hasStart hasClose).Run (Machine.both Few (Sole port)) tr s) :
    Sound tr s ∧ Streams port tr s :=
  h.invariant (I := fun tr s => Sound tr s ∧ Streams port tr s)
    ⟨⟨Orderly.initial, Registered.initial⟩, Streams.initial port⟩
    fun hi hg hs => ⟨hi.1.step hg.1 hs, hi.2.step hi.1 hstart hg.1 hg.2 hs⟩

/-! ### The page -/

open Loopback (End)

/-- Two images, and what was posted at each end of the channel and has not arrived at the other. -/
structure Page where
  image : End → Image := fun _ => {}
  wire : End → List QByteArray := fun _ => []

/-- The object that is an image's end of the channel. -/
def channel : ℕ := 0

/-- What is posted on an object. -/
def posts (port : ℕ) (os : List Obs) : List QByteArray := os.filterMap fun
  | .postMessage _ p message => if p = port then some message else none
  | _ => none

inductive PageAction where
  | image (e : End) (a : Action)
  /-- the oldest message posted at the end `e` arrives at the other -/
  | cross (e : End)

/-- Messages come to an end of the channel from its other end only. -/
def crosses : Action → Bool
  | .arrive port _ => port = channel
  | _ => false

namespace Page

/-- The image at the end `e` takes a step. -/
def run (e : End) (done : Image × List Obs) (s : Page) : Page × List (End × Obs) :=
  ({ image := Function.update s.image e done.1
     wire := Function.update s.wire e (s.wire e ++ posts channel done.2) },
    done.2.map fun o => (e, o))

/-- A message from the other end arrives at the end `e`. -/
def arrive (e : End) (message : QByteArray) (s : Page) : Page × List (End × Obs) :=
  let image := s.image e
  s.run e (image.setJs channel
    { image.js channel with queue := (image.js channel).queue ++ [message] },
    [.arrived channel message])

end Page

section page

variable (hasStart hasClose : End → ℕ → Bool)

def pageStep (s : Page) : PageAction → Option (Page × List (End × Obs))
  | .image e a =>
      if crosses a then none
      else (step (hasStart e) (hasClose e) (s.image e) a).map fun done => s.run e done
  | .cross e =>
      match s.wire e with
      | [] => none
      | message :: wire =>
          some ({ s with wire := Function.update s.wire e wire }.arrive e.peer message)

/-- Two images that were loaded just now. -/
def page : Reactive.Machine Page PageAction (End × Obs) where
  init := {}
  step := pageStep hasStart hasClose

end page

/-! ### What one image sees of a run -/

/-- The observations at one end. -/
def proj (e : End) (tr : List (End × Obs)) : List Obs := tr.filterMap fun o =>
  if o.1 = e then some o.2 else none

/-- Each image makes fewer than `2 ^ 31` ports, wraps its end of the channel at most once, and
delivers with no handle of its own accord that belongs to it. -/
def PageSole (tr : List (End × Obs)) (s : Page) : PageAction → Prop
  | .image e a => Machine.both Few (Sole channel) (proj e tr) (s.image e) a
  | .cross _ => True

@[simp] theorem proj_append (e : End) (tr os : List (End × Obs)) :
    proj e (tr ++ os) = proj e tr ++ proj e os := List.filterMap_append

@[simp] theorem posts_append (port : ℕ) (tr os : List Obs) :
    posts port (tr ++ os) = posts port tr ++ posts port os := List.filterMap_append

theorem proj_map (e e' : End) (os : List Obs) :
    proj e (os.map fun o => (e', o)) = if e' = e then os else [] := by
  split_ifs with he
  · subst he
    simp [proj, List.filterMap_map]
  · simp [proj, List.filterMap_map, he]

section

variable {hasStart hasClose : End → ℕ → Bool} {tr os : List (End × Obs)} {s s' : Page}

/-- Each image takes its own steps, and the wire holds what was posted and has not arrived. -/
structure Linked (hasStart hasClose : End → ℕ → Bool) (tr : List (End × Obs)) (s : Page) :
    Prop where
  run : ∀ e, (machine (hasStart e) (hasClose e)).Run (Machine.both Few (Sole channel))
    (proj e tr) (s.image e)
  wire : ∀ e, arrivals channel (proj e.peer tr) ++ s.wire e = posts channel (proj e tr)

theorem Linked.initial : Linked hasStart hasClose [] {} := ⟨fun _ => .start, fun _ => rfl⟩

/-- Nothing but the channel's own messages arrives at its ends. -/
theorem arrivals_step {hasStart hasClose : ℕ → Bool} {s s' : Image} {a : Action} {os : List Obs}
    (ha : crosses a = false) (hs : step hasStart hasClose s a = some (s', os)) :
    arrivals channel os = [] := by
  cases a with
  | construct p =>
      obtain ⟨rfl, rfl⟩ := Prod.mk.inj (Option.some.inj hs)
      rfl
  | adopt name p =>
      obtain ⟨rfl, rfl⟩ := Prod.mk.inj (Option.some.inj hs)
      rfl
  | destroy handle =>
      obtain ⟨p, -, he⟩ := Option.map_eq_some_iff.mp hs
      obtain ⟨rfl, rfl⟩ := Prod.mk.inj he
      rfl
  | start handle =>
      obtain ⟨p, -, he⟩ := Option.map_eq_some_iff.mp hs
      unfold Image.start at he
      split_ifs at he <;> obtain ⟨rfl, rfl⟩ := Prod.mk.inj he <;> rfl
  | post handle message =>
      obtain ⟨p, -, he⟩ := Option.map_eq_some_iff.mp hs
      unfold Image.post at he
      split_ifs at he <;> obtain ⟨rfl, rfl⟩ := Prod.mk.inj he <;> rfl
  | close handle =>
      obtain ⟨p, -, he⟩ := Option.map_eq_some_iff.mp hs
      unfold Image.close at he
      split_ifs at he <;> obtain ⟨rfl, rfl⟩ := Prod.mk.inj he <;> rfl
  | arrive p message =>
      obtain ⟨rfl, rfl⟩ := Prod.mk.inj (Option.some.inj hs)
      have hp : p ≠ channel := of_decide_eq_false ha
      simp [arrivals, hp]
  | dispatch p =>
      obtain ⟨-, hs⟩ := Option.ite_none_left_eq_some.mp hs
      split at hs
      · cases hs
      · obtain ⟨rfl, rfl⟩ := Prod.mk.inj (Option.some.inj hs)
        split
        · rfl
        · exact arrivals_deliverFromJs _ _ s
  | deliver handle data =>
      obtain ⟨rfl, rfl⟩ := Prod.mk.inj (Option.some.inj hs)
      exact arrivals_deliverFromJs handle data s

theorem proj_run (e e' : End) (done : Image × List Obs) :
    proj e' (tr ++ (s.run e done).2) = proj e' tr ++ if e = e' then done.2 else [] := by
  rw [proj_append, Page.run, proj_map]

/-- An image takes a step. -/
theorem Linked.image (h : Linked hasStart hasClose tr s) {e : End} {a : Action}
    {done : Image × List Obs}
    (hsole : Machine.both Few (Sole channel) (proj e tr) (s.image e) a)
    (ha : crosses a = false) (hs : step (hasStart e) (hasClose e) (s.image e) a = some done) :
    Linked hasStart hasClose (tr ++ (s.run e done).2) (s.run e done).1 := by
  have harrivals := arrivals_step ha hs
  refine ⟨fun e' => ?_, fun e' => ?_⟩
  · rw [proj_run]
    by_cases he : e = e'
    · subst he
      rw [if_pos rfl, Page.run]
      simp only [Function.update_self]
      exact (h.run e).step hsole hs
    · rw [if_neg he, List.append_nil, Page.run]
      simp only [Function.update_of_ne (Ne.symm he)]
      exact h.run e'
  · rw [proj_run, proj_run, arrivals_append, posts_append, ← h.wire e']
    have hpeer : arrivals channel (if e = e'.peer then done.2 else []) = [] := by
      split_ifs
      · exact harrivals
      · rfl
    rw [hpeer, List.append_nil, List.append_assoc, List.append_cancel_left_eq, Page.run]
    by_cases he : e = e'
    · subst he
      simp
    · simp [Function.update_of_ne (Ne.symm he), he, posts]

/-- A message crosses the channel. -/
theorem Linked.cross (h : Linked hasStart hasClose tr s) {e : End} {message : QByteArray}
    {wire : List QByteArray} (hwire : s.wire e = message :: wire) :
    Linked hasStart hasClose
      (tr ++ (({ s with wire := Function.update s.wire e wire } : Page).arrive e.peer message).2)
      (({ s with wire := Function.update s.wire e wire } : Page).arrive e.peer message).1 := by
  have hpeer := End.peer_ne e
  have hsole : Machine.both Few (Sole channel) (proj e.peer tr) (s.image e.peer)
      (.arrive channel message) := ⟨trivial, trivial⟩
  refine ⟨fun e' => ?_, fun e' => ?_⟩
  · rw [Page.arrive, proj_run]
    by_cases he : e.peer = e'
    · subst he
      rw [if_pos rfl, Page.run]
      simp only [Function.update_self]
      exact (h.run e.peer).step hsole rfl
    · rw [if_neg he, List.append_nil, Page.run]
      simp only [Function.update_of_ne (Ne.symm he)]
      exact h.run e'
  · rw [Page.arrive, proj_run, proj_run, arrivals_append, posts_append, ← h.wire e']
    by_cases he : e = e'
    · subst he
      simp [Page.run, hpeer, hwire, posts, arrivals, Function.update_of_ne (Ne.symm hpeer)]
    · obtain rfl := End.peer_eq_of_ne (Ne.symm he)
      simp [Page.run, hpeer, posts, arrivals]

/-- Every step of the page. -/
theorem Linked.step {a : PageAction} (h : Linked hasStart hasClose tr s) (hsole : PageSole tr s a)
    (hs : pageStep hasStart hasClose s a = some (s', os)) :
    Linked hasStart hasClose (tr ++ os) s' := by
  cases a with
  | image e a =>
      obtain ⟨ha, hs⟩ := Option.ite_none_left_eq_some.mp hs
      obtain ⟨done, hstep, hrun⟩ := Option.map_eq_some_iff.mp hs
      obtain ⟨rfl, rfl⟩ := Prod.mk.inj hrun
      exact h.image hsole (by simpa using ha) hstep
  | cross e =>
      simp only [pageStep] at hs
      split at hs
      · cases hs
      · rename_i message wire hwire
        obtain ⟨rfl, rfl⟩ := Prod.mk.inj (Option.some.inj hs)
        exact h.cross hwire

theorem mem_proj {e : End} {o : Obs} : o ∈ proj e tr ↔ (e, o) ∈ tr := by
  simp only [proj, List.mem_filterMap]
  constructor
  · rintro ⟨⟨e', o'⟩, hm, he⟩
    obtain ⟨rfl, ho⟩ := Option.ite_none_right_eq_some.mp he
    obtain rfl := Option.some.inj ho
    exact hm
  · intro hm
    exact ⟨(e, o), hm, by simp⟩

/-- **The channel between two images is one.**  In every run of two images whose ends of the
channel are `MessagePort`s, are wrapped once and are delivered to by their own `onmessage` only, a
port receives a first part of the messages that were posted at the other end, in order and without
the empty ones.  While it is open the rest is in its queue or on the wire, and until it is started
that is all of it, however early it was posted. -/
theorem page_is_a_channel (hstart : ∀ e, hasStart e channel = true)
    (h : (page hasStart hasClose).Run PageSole tr s) {e : End} {handle : ℕ}
    (hmade : (e, .constructed handle channel) ∈ tr) :
    received handle (proj e tr) <+: audible (posts channel (proj e.peer tr)) ∧
      ((s.image e).isOpen handle = true → received handle (proj e tr) ++
        audible (((s.image e).js channel).queue ++ s.wire e.peer) =
          audible (posts channel (proj e.peer tr))) ∧
      ((e, .attached handle channel) ∉ tr → received handle (proj e tr) = []) := by
  have hlinked : Linked hasStart hasClose tr s :=
    h.invariant Linked.initial fun hi hsole hs => hi.step hsole hs
  obtain ⟨hsound, hstreams⟩ := run_streams (hstart e) (hlinked.run e)
  have hwire := hlinked.wire e.peer
  rw [End.peer_peer] at hwire
  have hmade' := mem_proj.mpr hmade
  rw [← hwire]
  refine ⟨?_, fun hopened => ?_, fun hunattached => ?_⟩
  · rw [audible_append]
    exact (hstreams.within handle hmade').trans (List.prefix_append ..)
  · rw [audible_append, audible_append, ← List.append_assoc,
      hstreams.whole handle ((hsound.open_iff hmade').mpr hopened)]
  · cases honmessage : ((s.image e).js channel).onmessage with
    | none => exact (hstreams.held honmessage).2 handle hmade'
    | some handle' =>
        have hattached := hstreams.wired channel handle' honmessage
        obtain rfl := hstreams.alone _ _ hmade' (made_of_attached hsound.order hattached)
        exact absurd (mem_proj.mp hattached) hunattached

end

instance (tr : List (End × Obs)) (s : Page) : (a : PageAction) → Decidable (PageSole tr s a)
  | .image e a =>
      inferInstanceAs (Decidable (Machine.both Few (Sole channel) (proj e tr) (s.image e) a))
  | .cross _ => inferInstanceAs (Decidable True)

/-- The host writes before the runtime's port is made, and again before it is started. -/
theorem early_messages_are_kept : ∃ tr s,
    (page (fun _ _ => true) fun _ _ => true).Run PageSole tr s ∧
    posts channel (proj .b tr) = [[1], [2], [3]] ∧ s.wire .b = [[3]] ∧
    received 1 (proj .a tr) = [[1], [2]] ∧
    received 1 (proj .a tr) <+: audible (posts channel (proj .b tr)) := by
  obtain ⟨tr, s, h, hposted, hwire, hreceived, hmade⟩ := Machine.exec_any
    (M := page (fun _ _ => true) fun _ _ => true) (G := PageSole)
    [.image .b (.construct 0), .image .b (.post 1 [1]), .cross .b, .image .a (.adopt "backend" 0),
      .image .b (.post 1 [2]), .cross .b, .image .a (.start 1), .image .a (.dispatch 0),
      .image .b (.post 1 [3]), .image .a (.dispatch 0)]
    (p := fun tr s => posts channel (proj .b tr) = [[1], [2], [3]] ∧ s.wire .b = [[3]] ∧
      received 1 (proj .a tr) = [[1], [2]] ∧ (End.a, Obs.constructed 1 channel) ∈ tr)
    (by decide +kernel)
  exact ⟨tr, s, h, hposted, hwire, hreceived, (page_is_a_channel (fun _ => rfl) h hmade).1⟩

end LogosViewRuntime.Emscripten
