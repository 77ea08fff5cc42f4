import Mathlib.Data.List.Basic

/-! # Objects of strings as JSON text

`read` is the JSON grammar for an object whose members are strings: white space between the
tokens, the short escapes and `\u` with four hexadecimal digits.  A code unit that is half of a
surrogate pair is not read.

Writers differ in what they escape.  `Escapes escape` says that what is written for a character is
read as that character, and is all that the round trip of the compact writer asks
(`read_object`). -/

namespace JsonText

/-! ### Reading -/

def isSpace (c : Char) : Bool := c = ' ' || c = '\n' || c = '\r' || c = '\t'

def skip (text : List Char) : List Char := text.dropWhile isSpace

def hexValue (c : Char) : Option ℕ :=
  if '0' ≤ c ∧ c ≤ '9' then some (c.toNat - 48)
  else if 'a' ≤ c ∧ c ≤ 'f' then some (c.toNat - 87)
  else if 'A' ≤ c ∧ c ≤ 'F' then some (c.toNat - 55)
  else none

/-- The character of four digits. -/
def codeUnit (a b c d : Char) : Option Char :=
  match hexValue a, hexValue b, hexValue c, hexValue d with
  | some a, some b, some c, some d =>
      let n := ((a * 16 + b) * 16 + c) * 16 + d
      if n.isValidChar then some (Char.ofNat n) else none
  | _, _, _, _ => none

/-- What a character stands for after a backslash. -/
def unescape (c : Char) : Option Char :=
  if c = '"' ∨ c = '\\' ∨ c = '/' then some c
  else if c = 'b' then some (Char.ofNat 8)
  else if c = 'f' then some (Char.ofNat 12)
  else if c = 'n' then some '\n'
  else if c = 'r' then some '\r'
  else if c = 't' then some '\t'
  else none

/-- One character more of a string. -/
def cons (c : Char) (p : List Char × List Char) : List Char × List Char := (c :: p.1, p.2)

/-- A string after its opening quote, and what comes after the closing one. -/
def readChars : List Char → Option (List Char × List Char)
  | '"' :: rest => some ([], rest)
  | '\\' :: 'u' :: a :: b :: c :: d :: rest =>
      (codeUnit a b c d).bind fun c => (readChars rest).map (cons c)
  | '\\' :: c :: rest => (unescape c).bind fun c => (readChars rest).map (cons c)
  | c :: rest => if c = '\\' ∨ c.toNat < 32 then none else (readChars rest).map (cons c)
  | [] => none

def readString : List Char → Option (String × List Char)
  | '"' :: rest => (readChars rest).map fun p => (String.ofList p.1, p.2)
  | _ => none

def readMember (text : List Char) : Option ((String × String) × List Char) :=
  (readString (skip text)).bind fun key =>
    match skip key.2 with
    | ':' :: rest => (readString (skip rest)).map fun value => ((key.1, value.1), value.2)
    | _ => none

/-- Members up to the closing brace, `fuel` of them at most. -/
def readMembers : ℕ → List Char → Option (List (String × String) × List Char)
  | 0, _ => none
  | fuel + 1, text =>
      (readMember text).bind fun m =>
        match skip m.2 with
        | ',' :: rest => (readMembers fuel rest).map fun ms => (m.1 :: ms.1, ms.2)
        | '\x7d' :: rest => some ([m.1], rest)
        | _ => none

/-- Nothing but white space is left. -/
def ending {α : Type*} : α × List Char → Option α
  | (a, rest) => if skip rest = [] then some a else none

/-- The members of the object that a text is. -/
def read (text : String) : Option (List (String × String)) :=
  match skip text.toList with
  | '\x7b' :: rest =>
      match skip rest with
      | '\x7d' :: rest => ending ([], rest)
      | rest => (readMembers rest.length rest).bind ending
  | _ => none

/-! ### Writing -/

section

variable (escape : Char → List Char)

def quote (s : String) : List Char := '"' :: s.toList.flatMap escape ++ ['"']

def member (m : String × String) : List Char := quote escape m.1 ++ ':' :: quote escape m.2

/-- The compact text of an object. -/
def object (members : List (String × String)) : String :=
  String.ofList ('\x7b' :: [','].intercalate (members.map (member escape)) ++ ['\x7d'])

/-- What is written for a character is read as it. -/
def Escapes : Prop :=
  ∀ c rest, readChars (escape c ++ rest) = (readChars rest).map (cons c)

end

/-! ### The round trip -/

/-- A character that stands for itself. -/
theorem readChars_plain {c : Char} (hquote : c ≠ '"') (hslash : c ≠ '\\') (hcontrol : 32 ≤ c.toNat)
    (rest : List Char) : readChars (c :: rest) = (readChars rest).map (cons c) := by
  rw [readChars.eq_4 _ _ hquote (fun _ _ _ _ _ he _ => hslash he) fun _ _ he _ => hslash he,
    if_neg (not_or.mpr ⟨hslash, Nat.not_lt.mpr hcontrol⟩)]

theorem readChars_escaped {c e : Char} (hu : c ≠ 'u') (he : unescape c = some e)
    (rest : List Char) : readChars ('\\' :: c :: rest) = (readChars rest).map (cons e) := by
  rw [readChars.eq_3 _ _ (by rintro a b c' d rest rfl; exact absurd rfl hu), he]
  rfl

theorem readChars_codeUnit {a b c d e : Char} (he : codeUnit a b c d = some e)
    (rest : List Char) :
    readChars ('\\' :: 'u' :: a :: b :: c :: d :: rest) = (readChars rest).map (cons e) := by
  rw [readChars, he]
  rfl

variable {escape : Char → List Char}

theorem readString_quote (h : Escapes escape) (s : String) (rest : List Char) :
    readString (quote escape s ++ rest) = some (s, rest) := by
  have hchars : ∀ cs : List Char,
      readChars (cs.flatMap escape ++ '"' :: rest) = some (cs, rest) := by
    intro cs
    induction cs with
    | nil => rfl
    | cons c cs ih => rw [List.flatMap_cons, List.append_assoc, h, ih]; rfl
  simp [quote, readString, hchars]

theorem readMember_member (h : Escapes escape) (m : String × String) (rest : List Char) :
    readMember (member escape m ++ rest) = some (m, rest) := by
  have hskip : ∀ s rest, skip (quote escape s ++ rest) = quote escape s ++ rest := fun _ _ => rfl
  have hcolon : ∀ rest, skip (':' :: rest) = ':' :: rest := fun _ => rfl
  rw [readMember, member, List.append_assoc, hskip, readString_quote h, Option.bind_some,
    List.cons_append, hcolon]
  simp only [hskip, readString_quote h, Option.map_some]

/-- Members that are separated by commas. -/
theorem readMembers_members (h : Escapes escape) (rest : List Char) :
    ∀ (ms : List (String × String)) (m : String × String) (fuel : ℕ), ms.length < fuel →
      readMembers fuel ([','].intercalate ((m :: ms).map (member escape)) ++ '\x7d' :: rest) =
        some (m :: ms, rest)
  | [], m, fuel + 1, _ => by
      simp only [List.map_cons, List.map_nil, List.intercalate_singleton]
      rw [readMembers, readMember_member h]
      rfl
  | n :: ms, m, fuel + 1, hfuel => by
      have ih := readMembers_members h rest ms n fuel (Nat.lt_of_succ_lt_succ hfuel)
      rw [List.map_cons, List.map_cons, List.intercalate_cons_cons, ← List.map_cons,
        List.append_assoc, List.append_assoc, readMembers, readMember_member h, Option.bind_some]
      simp only [List.singleton_append, skip, isSpace, List.dropWhile_cons]
      simp only [Char.reduceEq, decide_false, Bool.or_false, Bool.false_eq_true, ↓reduceIte, ih,
        Option.map_some]

/-- Each member takes up room, so a text is long enough to be the fuel. -/
theorem length_le_length_intercalate (ms : List (String × String)) (m : String × String) :
    (m :: ms).length ≤ ([','].intercalate ((m :: ms).map (member escape))).length := by
  induction ms generalizing m with
  | nil => simp [member, quote]
  | cons n ms ih =>
      have hrest := ih n
      rw [List.map_cons, List.map_cons, List.intercalate_cons_cons, ← List.map_cons]
      simp only [List.length_cons, List.length_append] at hrest ⊢
      omega

/-- What is written is read, whatever the members are. -/
theorem read_object (h : Escapes escape) (members : List (String × String)) :
    read (object escape members) = some members := by
  rw [read, object, String.toList_ofList]
  cases members with
  | nil => rfl
  | cons m ms =>
      have hfuel : (m :: ms).length ≤ ([','].intercalate ((m :: ms).map (member escape))).length :=
        length_le_length_intercalate ms m
      obtain ⟨body, hbody⟩ : ∃ body,
          [','].intercalate ((m :: ms).map (member escape)) = '"' :: body := by
        cases ms with
        | nil => exact ⟨_, by rw [List.map_singleton, List.intercalate_singleton]; rfl⟩
        | cons n ms =>
            exact ⟨_, by rw [List.map_cons, List.map_cons, List.intercalate_cons_cons]; rfl⟩
      have hread := readMembers_members h [] ms m (('"' :: body ++ ['\x7d']).length)
        (by rw [hbody] at hfuel; simp at hfuel ⊢; omega)
      rw [hbody] at hread ⊢
      have hskip : ∀ rest, skip ('\x7b' :: rest) = '\x7b' :: rest := fun _ => rfl
      have hskip' : ∀ rest, skip ('"' :: rest) = '"' :: rest := fun _ => rfl
      simp only [List.cons_append, hskip, hskip'] at hread ⊢
      show (readMembers _ _).bind ending = _
      rw [hread]
      rfl

end JsonText
