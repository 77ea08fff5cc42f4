import Mathlib.Data.List.Basic

/-! # Lines of a stream

`lines` are the parts of a stream that end in a newline and `rest` is what comes after the last
one.  A reader that gets the stream in pieces keeps what it has not cut into lines yet; `Cut` says
that some lines were cut off and the buffer is left, and stays true while pieces are appended to
the buffer (`Cut.read`) and lines taken from its front (`Cut.take`).  Once the buffer holds no
newline it is the rest, and the lines cut off are all there are, wherever the stream was split
(`Cut.lines_eq`, `Cut.rest_eq`). -/

namespace Lines

variable {α : Type*} [DecidableEq α] (newline : α)

def lines (stream : List α) : List (List α) := (stream.splitOn newline).dropLast

def rest (stream : List α) : List α :=
  (stream.splitOn newline).getLast (List.splitOn_ne_nil newline stream)

/-- Each line followed by a newline. -/
def unlines (ls : List (List α)) : List α := ls.flatMap fun l => l ++ [newline]

/-- The stream is made of the lines `done` and what the buffer holds. -/
structure Cut (stream : List α) (done : List (List α)) (buffer : List α) : Prop where
  stream_eq : stream = unlines newline done ++ buffer
  clean : ∀ l ∈ done, newline ∉ l

variable {newline}

theorem splitOn_unlines {done : List (List α)} (buffer : List α) (h : ∀ l ∈ done, newline ∉ l) :
    (unlines newline done ++ buffer).splitOn newline = done ++ buffer.splitOn newline := by
  induction done with
  | nil => rfl
  | cons l done ih =>
      obtain ⟨hl, hdone⟩ := List.forall_mem_cons.mp h
      have hcons : unlines newline (l :: done) ++ buffer =
          l ++ newline :: (unlines newline done ++ buffer) := by
        simp [unlines]
      rw [hcons, List.splitOn_append_cons_self, List.splitOn_eq_singleton hl, ih hdone]
      rfl

/-- A stream at its first newline. -/
theorem split_first {stream : List α} (h : newline ∈ stream) :
    stream = stream.take (stream.idxOf newline) ++
      newline :: stream.drop (stream.idxOf newline + 1) := by
  have hlt := List.idxOf_lt_length_of_mem h
  conv_lhs => rw [← List.take_append_drop (stream.idxOf newline) stream]
  rw [List.drop_eq_getElem_cons hlt, List.getElem_idxOf hlt]

theorem notMem_first {stream : List α} (h : newline ∈ stream) :
    newline ∉ stream.take (stream.idxOf newline) := by
  rw [List.mem_take_iff_idxOf_lt h]
  exact Nat.lt_irrefl _

namespace Cut

variable {stream chunk buffer : List α} {done : List (List α)}

omit [DecidableEq α] in
theorem nil : Cut newline [] [] [] := ⟨rfl, by simp⟩

omit [DecidableEq α] in
theorem read (h : Cut newline stream done buffer) (chunk : List α) :
    Cut newline (stream ++ chunk) done (buffer ++ chunk) where
  stream_eq := by rw [h.stream_eq, List.append_assoc]
  clean := h.clean

/-- The first line of the buffer is cut off. -/
theorem take (h : Cut newline stream done buffer) (hmem : newline ∈ buffer) :
    Cut newline stream (done ++ [buffer.take (buffer.idxOf newline)])
      (buffer.drop (buffer.idxOf newline + 1)) where
  stream_eq := by
    rw [h.stream_eq]
    conv_lhs => rw [split_first hmem]
    simp [unlines]
  clean := by
    intro l hl
    obtain hl | hl := List.mem_append.mp hl
    · exact h.clean l hl
    · obtain rfl := List.mem_singleton.mp hl
      exact notMem_first hmem

theorem lines_append (h : Cut newline stream done buffer) :
    lines newline stream = done ++ lines newline buffer := by
  rw [lines, h.stream_eq, splitOn_unlines buffer h.clean,
    List.dropLast_append_of_ne_nil (List.splitOn_ne_nil newline buffer)]
  rfl

theorem lines_eq (h : Cut newline stream done buffer) (hbuffer : newline ∉ buffer) :
    lines newline stream = done := by
  rw [h.lines_append, lines, List.splitOn_eq_singleton hbuffer]
  exact List.append_nil _

theorem rest_eq (h : Cut newline stream done buffer) (hbuffer : newline ∉ buffer) :
    rest newline stream = buffer := by
  have hsplit : stream.splitOn newline = done ++ [buffer] := by
    rw [h.stream_eq, splitOn_unlines buffer h.clean, List.splitOn_eq_singleton hbuffer]
  unfold rest
  simp only [hsplit, List.getLast_append_singleton]

end Cut

variable {stream : List α}

omit [DecidableEq α] in
/-- Nothing is cut off yet. -/
theorem cut_self (stream : List α) : Cut newline stream [] stream := ⟨rfl, by simp⟩

theorem lines_of_notMem (h : newline ∉ stream) : lines newline stream = [] :=
  (cut_self stream).lines_eq h

/-- The first line and the others. -/
theorem lines_of_mem (h : newline ∈ stream) :
    lines newline stream = stream.take (stream.idxOf newline) ::
      lines newline (stream.drop (stream.idxOf newline + 1)) :=
  ((cut_self stream).take h).lines_append

theorem length_le_of_mem_lines {stream l : List α} (h : l ∈ lines newline stream) :
    l.length ≤ stream.length := by
  induction hn : stream.length using Nat.strongRecOn generalizing stream with
  | _ n ih =>
    by_cases hmem : newline ∈ stream
    · have hlt := List.idxOf_lt_length_of_mem hmem
      rw [lines_of_mem hmem] at h
      obtain rfl | h := List.mem_cons.mp h
      · rw [List.length_take]
        omega
      · have hdrop := List.length_drop (i := stream.idxOf newline + 1) (l := stream)
        have hle := ih _ (by omega) h rfl
        omega
    · rw [lines_of_notMem hmem] at h
      cases h

end Lines
