import LogosViewRuntime.ViewModuleHost

/-! # The READY line

The handler of the child's output gets it in pieces and looks at each line once it is complete.
Whatever the pieces and whatever else the host does in between, `ready()` is emitted once for a
child whose output holds a READY line, at the piece that completes the first one, and not for any
other, as long as an `int` holds the index after the newline of each line; for a piece that
completes a longer line the loop goes on for ever or leaves lines behind (`ready_iff_short`). -/

namespace LogosViewRuntime.ViewModuleHost

open Reactive
open Lines (Cut)

/-! ### What one spawn reads and emits -/

def addRead (stream : QByteArray) : Obs → QByteArray
  | .spawning _ => []
  | .read chunk => stream ++ chunk
  | _ => stream

def addReady (readies : ℕ) : Obs → ℕ
  | .spawning _ => 0
  | .ready => readies + 1
  | _ => readies

/-- The output read since the last `spawn` that was not refused. -/
def stream (tr : List Obs) : QByteArray := tr.foldl addRead []

/-- How often `ready()` was emitted since then. -/
def readies (tr : List Obs) : ℕ := tr.foldl addReady 0

@[simp] theorem stream_append (tr os : List Obs) :
    stream (tr ++ os) = os.foldl addRead (stream tr) := List.foldl_append

@[simp] theorem readies_append (tr os : List Obs) :
    readies (tr ++ os) = os.foldl addReady (readies tr) := List.foldl_append

def isReady (line : QByteArray) : Bool := trimmed line == bytes "READY"

/-- Some newline-terminated line of the stream is READY. -/
def HasReady (stream : QByteArray) : Prop :=
  ∃ line ∈ Lines.lines newline stream, isReady line = true

instance (stream : QByteArray) : Decidable (HasReady stream) :=
  inferInstanceAs (Decidable (∃ line ∈ Lines.lines newline stream, isReady line = true))

/-- An `int` holds the index after the newline of every line. -/
def ShortLines (stream : QByteArray) : Prop :=
  ∀ line ∈ Lines.lines newline stream, line.length + 1 < 2 ^ 31

instance (stream : QByteArray) : Decidable (ShortLines stream) :=
  inferInstanceAs (Decidable (∀ line ∈ Lines.lines newline stream, line.length + 1 < 2 ^ 31))

/-- Nothing that is read completes a line that is too long for an `int`. -/
def Short (tr : List Obs) (_ : Host) : Action → Prop
  | .readyRead chunk => ShortLines (stream tr ++ chunk)
  | .spawn .. | .stop | .connect _ | .newConnection _ | .finished _ | .ret => True

instance (tr : List Obs) (s : Host) : (a : Action) → Decidable (Short tr s a)
  | .readyRead chunk => inferInstanceAs (Decidable (ShortLines (stream tr ++ chunk)))
  | .spawn .. | .stop | .connect _ | .newConnection _ | .finished _ | .ret =>
      inferInstanceAs (Decidable True)

/-- The handler, if the slots of `ready()` return at once. -/
def Host.handle (chunk : QByteArray) (s : Host) : Option (Host × List Obs) :=
  (s.readyRead chunk).bind fun done =>
    if .ready ∈ done.2 then done.1.ret.map fun rest => (rest.1, done.2 ++ rest.2) else some done

/-- The handler ends, has looked at all lines and emits `ready()` once, for the chunk that completes
the first READY line. -/
def Handles (total chunk : QByteArray) (s : Host) : Prop :=
  ∃ s' os, s.handle chunk = some (s', os) ∧ s'.stdoutBuffer = Lines.rest newline (total ++ chunk) ∧
    os.foldl addReady 0 = if ¬ HasReady total ∧ HasReady (total ++ chunk) then 1 else 0

/-- The handler does so at every chunk. -/
def Handled (tr : List Obs) (s : Host) : Action → Prop
  | .readyRead chunk => Handles (stream tr) chunk s
  | .spawn .. | .stop | .connect _ | .newConnection _ | .finished _ | .ret => True

variable {tr os : List Obs} {s s' : Host} {a : Action}

/-! ### Numbers of bytes -/

theorem toInt_eq (i : ℤ) :
    toInt i = if i % 2 ^ 32 < 2 ^ 31 then i % 2 ^ 32 else i % 2 ^ 32 - 2 ^ 32 := by
  rw [toInt, Int.bmod_def]
  split_ifs <;> omega

theorem toInt_of_lt {n : ℕ} (h : n < 2 ^ 31) : toInt n = n := by
  rw [toInt_eq]
  split_ifs <;> omega

/-- A short line is found where it ends. -/
theorem toInt_indexOfNewline {buffer : QByteArray} (hmem : newline ∈ buffer)
    (hlt : buffer.idxOf newline + 1 < 2 ^ 31) :
    toInt (indexOfNewline buffer) = buffer.idxOf newline := by
  rw [indexOfNewline, if_pos hmem]
  exact toInt_of_lt (Nat.lt_of_succ_lt hlt)

theorem length_first {buffer : QByteArray} (hmem : newline ∈ buffer) :
    (buffer.take (buffer.idxOf newline)).length = buffer.idxOf newline := by
  have hlt := List.idxOf_lt_length_of_mem hmem
  rw [List.length_take]
  omega

/-! ### The loop -/

/-- What the loop does from `s` on: it comes to the end of the buffer, or it stops at the slots of
`ready()`.  `ls` are the lines it looked at. -/
inductive Parsed (s : Host) (ls : List QByteArray) : Host × List Obs → Prop
  | through {buffer : QByteArray} (hbuffer : newline ∉ buffer)
      (hls : s.readyEmitted = true ∨ ∀ l ∈ ls, isReady l = false) :
      Parsed s ls ({ s with stdoutBuffer := buffer }, [])
  | found {buffer : QByteArray} (hfirst : s.readyEmitted = false)
      (hready : ∃ l ∈ ls, isReady l = true) :
      Parsed s ls ({ s with
        stdoutBuffer := buffer
        readyEmitted := true
        parsing := s.parsing + 1 }, [.ready])

/-- The loop over the lines emits `ready()` or nothing. -/
theorem parse_emits {fuel : ℕ} (hp : s.parse fuel = some (s', os)) : os = [] ∨ os = [.ready] := by
  induction fuel generalizing s with
  | zero =>
      rw [Host.parse] at hp
      split_ifs at hp
      exact .inl (Prod.mk.inj (Option.some.inj hp)).2.symm
  | succ fuel ih =>
      rw [Host.parse] at hp
      dsimp only at hp
      split_ifs at hp
      · exact .inr (Prod.mk.inj (Option.some.inj hp)).2.symm
      · exact ih hp
      · exact .inl (Prod.mk.inj (Option.some.inj hp)).2.symm

theorem parse_end (hmem : newline ∉ s.stdoutBuffer) (fuel : ℕ) : s.parse fuel = some (s, []) := by
  have hnone : toInt (indexOfNewline s.stdoutBuffer) = -1 := by
    rw [indexOfNewline, if_neg hmem]
    rfl
  cases fuel <;> rw [Host.parse] <;> simp [hnone]

/-- A round that takes a short line. -/
theorem parse_short {fuel : ℕ} (hmem : newline ∈ s.stdoutBuffer)
    (hlt : s.stdoutBuffer.idxOf newline + 1 < 2 ^ 31) :
    s.parse (fuel + 1) =
      if !s.readyEmitted && isReady (s.stdoutBuffer.take (s.stdoutBuffer.idxOf newline)) then
        some ({ s with
          stdoutBuffer := s.stdoutBuffer.drop (s.stdoutBuffer.idxOf newline + 1)
          readyEmitted := true
          parsing := s.parsing + 1 }, [.ready])
      else Host.parse fuel
        { s with stdoutBuffer := s.stdoutBuffer.drop (s.stdoutBuffer.idxOf newline + 1) } := by
  have hidx := toInt_indexOfNewline hmem hlt
  have hsucc : toInt (s.stdoutBuffer.idxOf newline + 1) = (s.stdoutBuffer.idxOf newline + 1 : ℕ) :=
    toInt_of_lt hlt
  have hfound : (s.stdoutBuffer.idxOf newline : ℤ) ≠ -1 := by omega
  rw [Host.parse]
  dsimp only
  rw [hidx, if_pos hfound, hsucc]
  rfl

/-- The loop ends in as many rounds as there are bytes at most, having cut lines off the front of
the buffer. -/
theorem parse_cut {total : QByteArray} {done : List QByteArray} {fuel : ℕ}
    (hfuel : s.stdoutBuffer.length ≤ fuel) (hshort : ShortLines s.stdoutBuffer)
    (hcut : Cut newline total done s.stdoutBuffer) :
    ∃ r ls, s.parse fuel = some r ∧ Cut newline total (done ++ ls) r.1.stdoutBuffer ∧
      Parsed s ls r := by
  induction fuel generalizing s done with
  | zero =>
      have hnil : s.stdoutBuffer = [] := List.eq_nil_of_length_eq_zero (Nat.le_zero.mp hfuel)
      have hmem : newline ∉ s.stdoutBuffer := by simp [hnil]
      refine ⟨(s, []), [], parse_end hmem 0, by rwa [List.append_nil], ?_⟩
      exact .through hmem (.inr (by simp))
  | succ fuel ih =>
      by_cases hmem : newline ∈ s.stdoutBuffer
      · have htake := hcut.take hmem
        rw [ShortLines, Lines.lines_of_mem hmem, List.forall_mem_cons, length_first hmem] at hshort
        obtain ⟨hfirst, hothers⟩ := hshort
        rw [parse_short hmem hfirst]
        by_cases hline : !s.readyEmitted &&
            isReady (s.stdoutBuffer.take (s.stdoutBuffer.idxOf newline))
        · rw [if_pos hline]
          obtain ⟨hfirst, hready⟩ := Bool.and_eq_true_iff.mp hline
          refine ⟨_, [_], rfl, htake, .found (by simpa using hfirst) ⟨_, List.mem_cons_self, hready⟩⟩
        · rw [if_neg hline]
          have hless : (s.stdoutBuffer.drop (s.stdoutBuffer.idxOf newline + 1)).length ≤ fuel := by
            rw [List.length_drop]
            omega
          obtain ⟨r, ls, hr, hcut', hparsed⟩ :=
            ih (s := { s with stdoutBuffer := _ }) hless hothers htake
          rw [List.append_assoc] at hcut'
          refine ⟨r, _, hr, hcut', ?_⟩
          -- the line that was looked at is not READY, or READY was seen before
          have hnot : s.readyEmitted = true ∨
              isReady (s.stdoutBuffer.take (s.stdoutBuffer.idxOf newline)) = false := by
            cases hemitted : s.readyEmitted with
            | true => exact .inl rfl
            | false => exact .inr (by simpa [hemitted] using hline)
          cases hparsed with
          | through hbuffer hls =>
              refine .through hbuffer ?_
              obtain hemitted | hnot := hnot
              · exact .inl hemitted
              · exact hls.imp id fun hls => List.forall_mem_cons.mpr ⟨hnot, hls⟩
          | found hfirst hready =>
              obtain ⟨l, hl, hready⟩ := hready
              exact .found hfirst ⟨l, List.mem_cons_of_mem _ hl, hready⟩
      · refine ⟨(s, []), [], parse_end hmem _, by rwa [List.append_nil], ?_⟩
        exact .through hmem (.inr (by simp))

theorem parse_reads {fuel : ℕ} (hp : s.parse fuel = some (s', os)) (total : QByteArray) :
    os.foldl addRead total = total := by
  obtain rfl | rfl := parse_emits hp <;> rfl

/-! ### What a step does to the output -/

/-- What `spawn` makes of the buffer. -/
theorem spawn_cases (moduleName pluginPath authToken : String) (outcome : Outcome) (s : Host) :
    s.spawn moduleName pluginPath authToken outcome = (s, [.spawnReturned false]) ∨
      ∃ s' os, s.spawn moduleName pluginPath authToken outcome = (s', .spawning moduleName :: os) ∧
        s'.stdoutBuffer = [] ∧ s'.readyEmitted = false ∧
        os.foldl addRead [] = [] ∧ os.foldl addReady 0 = 0 := by
  unfold Host.spawn
  dsimp only
  split_ifs
  · exact .inl rfl
  · exact .inl rfl
  · exact .inr ⟨_, _, rfl, rfl, rfl, rfl, rfl⟩
  · refine .inr ⟨_, _, rfl, ?_⟩
    simp only [Host.launch]
    split_ifs <;> exact ⟨rfl, rfl, rfl, rfl⟩

/-- A step leaves the output alone, `spawn` resets it, the handler reads a chunk, or the slots of
`ready()` return into its loop. -/
inductive Output (s : Host) : Action → Host × List Obs → Prop
  | kept {a : Action} {s' : Host} {os : List Obs} (hbuffer : s'.stdoutBuffer = s.stdoutBuffer)
      (hemitted : s'.readyEmitted = s.readyEmitted) (hparsing : s'.parsing = s.parsing)
      (hread : ∀ total, os.foldl addRead total = total)
      (hready : ∀ count, os.foldl addReady count = count) : Output s a (s', os)
  | reset {moduleName pluginPath authToken : String} {outcome : Outcome} {s' : Host}
      {os : List Obs} (hbuffer : s'.stdoutBuffer = []) (hemitted : s'.readyEmitted = false)
      (hread : ∀ total, os.foldl addRead total = [])
      (hready : ∀ count, os.foldl addReady count = 0) :
      Output s (.spawn moduleName pluginPath authToken outcome) (s', os)
  | read {chunk : QByteArray} {s' : Host} {os : List Obs}
      (hparse : { s with stdoutBuffer := s.stdoutBuffer ++ chunk }.parse
        (s.stdoutBuffer ++ chunk).length = some (s', os)) :
      Output s (.readyRead chunk) (s', .read chunk :: os)
  | resumed {parsing : ℕ} {s' : Host} {os : List Obs} (hparsing : s.parsing = parsing + 1)
      (hparse : { s with parsing }.parse s.stdoutBuffer.length = some (s', os)) :
      Output s .ret (s', os)

theorem step_output (hs : step s a = some (s', os)) : Output s a (s', os) := by
  cases a with
  | spawn moduleName pluginPath authToken outcome =>
      obtain hrefused | ⟨t, os', hspawned, hbuffer, hemitted, hread, hready⟩ :=
        spawn_cases moduleName pluginPath authToken outcome s
      · obtain ⟨rfl, rfl⟩ := Prod.mk.inj (hrefused.symm.trans (Option.some.inj hs))
        exact .kept rfl rfl rfl (fun _ => rfl) (fun _ => rfl)
      · obtain ⟨rfl, rfl⟩ := Prod.mk.inj (hspawned.symm.trans (Option.some.inj hs))
        exact .reset hbuffer hemitted (fun _ => hread) (fun _ => hready)
  | stop =>
      simp only [step, Host.stop, Option.some.injEq] at hs
      split at hs <;> obtain ⟨rfl, rfl⟩ := Prod.mk.inj hs
      · exact .kept rfl rfl rfl (fun _ => rfl) (fun _ => rfl)
      · exact .kept rfl rfl rfl (fun _ => rfl) (fun _ => rfl)
  | connect n =>
      obtain ⟨-, rfl, rfl⟩ := Machine.taken_if hs
      exact .kept rfl rfl rfl (fun _ => rfl) (fun _ => rfl)
  | newConnection n =>
      obtain ⟨-, rfl, rfl⟩ := Machine.taken_if hs
      unfold Host.newConnection
      dsimp only
      split
      · exact .kept rfl rfl rfl (fun _ => rfl) (fun _ => rfl)
      · exact .kept rfl rfl rfl (fun _ => rfl) (fun _ => rfl)
  | readyRead chunk =>
      obtain ⟨-, hs⟩ := Option.ite_none_right_eq_some.mp hs
      obtain ⟨⟨t, os'⟩, hparse, he⟩ := Option.map_eq_some_iff.mp hs
      obtain ⟨rfl, rfl⟩ := Prod.mk.inj he
      exact .read hparse
  | finished exitCode =>
      obtain ⟨-, rfl, rfl⟩ := Machine.taken_if hs
      exact .kept rfl rfl rfl (fun _ => rfl) (fun _ => rfl)
  | ret =>
      simp only [step, Host.ret] at hs
      split at hs
      · cases hs
      · exact .resumed ‹_› hs

/-! ### Runs -/

/-- The lines `done` of the stream were looked at, and the buffer holds the others. -/
structure Reading (stream : QByteArray) (readies : ℕ) (done : List QByteArray) (s : Host) : Prop where
  cut : Cut newline stream done s.stdoutBuffer
  short : ShortLines stream
  emitted : s.readyEmitted = done.any isReady
  once : readies = if s.readyEmitted then 1 else 0

/-- Between two steps no line is left to look at, unless READY was seen and its slots have not
returned. -/
def Clean (s : Host) : Prop :=
  s.readyEmitted = false ∨ s.parsing = 0 → newline ∉ s.stdoutBuffer

namespace Reading

variable {total : QByteArray} {count : ℕ} {done : List QByteArray}

theorem shortBuffer (h : Reading total count done s) : ShortLines s.stdoutBuffer := by
  intro l hl
  refine h.short l ?_
  rw [h.cut.lines_append]
  exact List.mem_append_right _ hl

/-- The loop ends, and `ready()` is emitted by it only where it was not before. -/
theorem parse (h : Reading total count done s) {fuel : ℕ} (hfuel : s.stdoutBuffer.length ≤ fuel) :
    ∃ s' os ls, s.parse fuel = some (s', os) ∧
      Reading total (os.foldl addReady count) (done ++ ls) s' ∧ Clean s' ∧
      (os = [] ∧ newline ∉ s'.stdoutBuffer ∨
        os = [.ready] ∧ s.readyEmitted = false ∧ s'.readyEmitted = true ∧ s'.parsing ≠ 0) := by
  obtain ⟨⟨s', os⟩, ls, hparse, hcut, hparsed⟩ := parse_cut hfuel h.shortBuffer h.cut
  refine ⟨s', os, ls, hparse, ?_⟩
  cases hparsed with
  | through hbuffer hls =>
      refine ⟨⟨hcut, h.short, ?_, h.once⟩, fun _ => hbuffer, .inl ⟨rfl, hbuffer⟩⟩
      obtain hemitted | hls := hls
      · rw [List.any_append, ← h.emitted, hemitted, Bool.true_or]
      · have hnone : ls.any isReady = false := by simpa using hls
        rw [List.any_append, ← h.emitted, hnone, Bool.or_false]
  | found hfirst hready =>
      refine ⟨⟨hcut, h.short, ?_, ?_⟩, ?_, .inr ⟨rfl, hfirst, rfl, Nat.succ_ne_zero _⟩⟩
      · have hsome : ls.any isReady = true := by simpa using hready
        rw [List.any_append, hsome, Bool.or_true]
      · rw [h.once, hfirst]
        rfl
      · rintro (hemitted | hparsing)
        · cases hemitted
        · exact absurd hparsing (Nat.succ_ne_zero _)

/-- READY is in the stream exactly if it was seen. -/
theorem hasReady_iff (h : Reading total count done s) (hclean : Clean s) :
    HasReady total ↔ s.readyEmitted = true := by
  rw [h.emitted, List.any_eq_true, HasReady]
  constructor
  · intro hready
    by_contra hnone
    have hfirst : s.readyEmitted = false := by
      rw [h.emitted, List.any_eq_false]
      intro l hl hl'
      exact hnone ⟨l, hl, hl'⟩
    rw [h.cut.lines_eq (hclean (.inl hfirst))] at hready
    exact hnone hready
  · rintro ⟨l, hl, hready⟩
    rw [h.cut.lines_append]
    exact ⟨l, List.mem_append_left _ hl, hready⟩

/-- The slots of `ready()` return into a loop that comes to the end of the buffer. -/
theorem ret (h : Reading total count done s) (hclean : Clean s) (hparsing : s.parsing ≠ 0) :
    ∃ s', s.ret = some (s', []) ∧ s'.stdoutBuffer = Lines.rest newline total := by
  obtain ⟨parsing, hsucc⟩ := Nat.exists_eq_succ_of_ne_zero hparsing
  have hpop : Reading total count done { s with parsing } := ⟨h.cut, h.short, h.emitted, h.once⟩
  obtain ⟨s', os, ls, hparse, hreading, -, hos⟩ := hpop.parse (Nat.le_refl _)
  have hret : s.ret = some (s', os) := by simpa only [Host.ret, hsucc] using hparse
  obtain ⟨rfl, hbuffer⟩ | ⟨-, hfirst, -, -⟩ := hos
  · exact ⟨s', hret, (hreading.cut.rest_eq hbuffer).symm⟩
  · -- no line was left, so there is none to emit `ready()` for
    have hnone := hclean (.inl hfirst)
    have hend := parse_end (s := { s with parsing }) hnone s.stdoutBuffer.length
    obtain ⟨rfl, rfl⟩ := Prod.mk.inj (Option.some.inj (hparse.symm.trans hend))
    exact ⟨_, hret, (h.cut.rest_eq hnone).symm⟩

/-- The handler does with a chunk what it is for. -/
theorem handles (h : Reading total count done s) (hclean : Clean s) {chunk : QByteArray}
    (hshort : ShortLines (total ++ chunk)) : Handles total chunk s := by
  have hread : Reading (total ++ chunk) count done
      { s with stdoutBuffer := s.stdoutBuffer ++ chunk } :=
    ⟨h.cut.read chunk, hshort, h.emitted, h.once⟩
  obtain ⟨t, os, ls, hparse, hreading, hclean', hos⟩ := hread.parse (Nat.le_refl _)
  have hreadyRead : s.readyRead chunk = some (t, .read chunk :: os) := by
    rw [Host.readyRead, hparse]
    rfl
  simp only [Handles, h.hasReady_iff hclean, hreading.hasReady_iff hclean']
  obtain ⟨rfl, hbuffer⟩ | ⟨rfl, hfirst, hafter, hparsing⟩ := hos
  · refine ⟨t, [.read chunk], ?_, (hreading.cut.rest_eq hbuffer).symm, ?_⟩
    · simp [Host.handle, hreadyRead]
    · -- the count is that of the flag, so the flag is as it was
      have hcount : (if t.readyEmitted then 1 else 0) = if s.readyEmitted then 1 else 0 :=
        hreading.once.symm.trans h.once
      cases hwas : s.readyEmitted <;> cases his : t.readyEmitted <;> simp_all [addReady]
  · obtain ⟨s', hret, hbuffer⟩ := hreading.ret hclean' hparsing
    refine ⟨s', [.read chunk, .ready], ?_, hbuffer, ?_⟩
    · simp [Host.handle, hreadyRead, hret]
    · have hwas : s.readyEmitted = false := hfirst
      simp [addReady, hwas, hafter]

end Reading

/-- The host knows what it has read. -/
def Knows (tr : List Obs) (s : Host) : Prop :=
  (∃ done, Reading (stream tr) (readies tr) done s) ∧ Clean s

theorem Knows.initial : Knows [] {} :=
  ⟨⟨[], .nil, by simp [ShortLines, stream, Lines.lines_of_notMem], rfl, rfl⟩, fun _ => by simp⟩

theorem Knows.step (h : Knows tr s) (hshort : Short tr s a)
    (hs : ViewModuleHost.step s a = some (s', os)) : Knows (tr ++ os) s' := by
  obtain ⟨⟨done, hreading⟩, hclean⟩ := h
  cases step_output hs with
  | kept hbuffer hemitted hparsing hread hready =>
      rw [Knows, stream_append, readies_append, hread, hready, Clean, hbuffer, hemitted, hparsing]
      refine ⟨⟨done, ?_, hreading.short, ?_, ?_⟩, hclean⟩
      · rw [hbuffer]
        exact hreading.cut
      · rw [hemitted]
        exact hreading.emitted
      · rw [hemitted]
        exact hreading.once
  | reset hbuffer hemitted hread hready =>
      rw [Knows, stream_append, readies_append, hread, hready]
      refine ⟨⟨[], ?_, ?_, hemitted, by simp [hemitted]⟩, fun _ => by simp [hbuffer]⟩
      · rw [hbuffer]
        exact .nil
      · simp [ShortLines, Lines.lines_of_notMem]
  | @read chunk _ os hparse =>
      have hread : Reading (stream tr ++ chunk) (readies tr) done
          { s with stdoutBuffer := s.stdoutBuffer ++ chunk } :=
        ⟨hreading.cut.read chunk, hshort, hreading.emitted, hreading.once⟩
      obtain ⟨t, os', ls, hparse', hreading', hclean', -⟩ := hread.parse (Nat.le_refl _)
      obtain ⟨rfl, rfl⟩ := Prod.mk.inj (Option.some.inj (hparse'.symm.trans hparse))
      refine ⟨⟨done ++ ls, ?_⟩, hclean'⟩
      simpa [addRead, addReady, parse_reads hparse] using hreading'
  | @resumed parsing _ _ hparsing hparse =>
      have hpop : Reading (stream tr) (readies tr) done { s with parsing } :=
        ⟨hreading.cut, hreading.short, hreading.emitted, hreading.once⟩
      obtain ⟨t, os', ls, hparse', hreading', hclean', -⟩ := hpop.parse (Nat.le_refl _)
      obtain ⟨rfl, rfl⟩ := Prod.mk.inj (Option.some.inj (hparse'.symm.trans hparse))
      exact ⟨⟨done ++ ls, by simpa [parse_reads hparse] using hreading'⟩, hclean'⟩

/-- Nothing is left of nothing, and nothing is emitted for it, whatever the lines are like. -/
def Unread (tr : List Obs) (s : Host) : Prop :=
  stream tr = [] → s.stdoutBuffer = [] ∧ readies tr = 0

theorem Unread.initial : Unread [] {} := fun _ => ⟨rfl, rfl⟩

theorem Unread.step (h : Unread tr s) (hs : ViewModuleHost.step s a = some (s', os)) :
    Unread (tr ++ os) s' := by
  cases step_output hs with
  | kept hbuffer _ _ hread hready =>
      rw [Unread, hbuffer, stream_append, readies_append, hread, hready]
      exact h
  | reset hbuffer _ hread hready =>
      rw [Unread, readies_append, hready]
      exact fun _ => ⟨hbuffer, rfl⟩
  | @read chunk _ os hparse =>
      intro hnil
      simp only [stream_append, List.foldl_cons, addRead, parse_reads hparse,
        List.append_eq_nil_iff] at hnil
      obtain ⟨hbuffer, hreadies⟩ := h hnil.1
      have hempty : s.stdoutBuffer ++ chunk = [] := by rw [hbuffer, hnil.2, List.append_nil]
      have hnone : newline ∉ s.stdoutBuffer ++ chunk := by simp [hempty]
      have hend := parse_end (s := { s with stdoutBuffer := s.stdoutBuffer ++ chunk }) hnone
      obtain ⟨rfl, rfl⟩ := Prod.mk.inj (Option.some.inj (hparse.symm.trans (hend _)))
      exact ⟨hempty, by simpa [addReady] using hreadies⟩
  | @resumed parsing _ _ hparsing hparse =>
      intro hnil
      rw [stream_append, parse_reads hparse] at hnil
      obtain ⟨hbuffer, hreadies⟩ := h hnil
      have hnone : newline ∉ s.stdoutBuffer := by simp [hbuffer]
      have hend := parse_end (s := { s with parsing }) hnone
      obtain ⟨rfl, rfl⟩ := Prod.mk.inj (Option.some.inj (hparse.symm.trans (hend _)))
      exact ⟨hbuffer, by simpa using hreadies⟩

end LogosViewRuntime.ViewModuleHost
