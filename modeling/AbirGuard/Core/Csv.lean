/-
Comma-separated values: rows of fields as text, with a carriage return and a line feed after each row.

The writer puts a field in quotes where it has to and doubles the quotes in it. The reader goes through the text one character
at a time. It refuses a lone carriage return and a text that ends within a row.

- `readFrom_writeField`: a written field and what follows it.
- `read_write`: reading what was written gives the rows.
-/
import AbirGuard.Core.Text

namespace AbirGuard.Core.Csv

open CodePoint

/-! ## Writing -/

/-- characters that a field without quotes cannot have -/
def isSpecial (p : CodePoint) : Bool := p = ofChar ',' ∨ p = ofChar '"' ∨ p = ofChar '\r' ∨ p = ofChar '\n'

def double (field : Text) : Text := field.flatMap fun p => if p = ofChar '"' then [p, p] else [p]

def quoted (field : Text) : Text := ofChar '"' :: (double field ++ [ofChar '"'])

def writeField (field : Text) : Text := if field.any isSpecial then quoted field else field

/-- the fields after the first, and the end of the row -/
def writeFields : List Text → Text
  | [] => [ofChar '\r', ofChar '\n']
  | field :: fields => ofChar ',' :: (writeField field ++ writeFields fields)

/-- a row that is one empty field is not the empty row -/
def writeRow : List Text → Text
  | [] => writeFields []
  | [[]] => quoted [] ++ writeFields []
  | field :: fields => writeField field ++ writeFields fields

def write (rows : List (List Text)) : Text := rows.flatMap writeRow

/-! ## Reading -/

inductive Mode where
  | startRow
  | startField
  | inField
  | inQuotes
  | quoteInQuotes
  | afterReturn
  | refused
deriving DecidableEq

structure Reader where
  rows : List (List Text)
  row : List Text
  field : Text
  mode : Mode

namespace Reader

def saveField (s : Reader) (mode : Mode) : Reader := { s with row := s.row ++ [s.field], field := [], mode := mode }

def saveRow (s : Reader) : Reader := { s with rows := s.rows ++ [s.row], row := [], mode := .startRow }

def addChar (s : Reader) (p : CodePoint) (mode : Mode) : Reader := { s with field := s.field ++ [p], mode := mode }

/-- a field ends at a comma and at the end of the row; `other` is for any other character -/
def endField (s : Reader) (p : CodePoint) (other : Reader) : Reader :=
  if p = ofChar ',' then s.saveField .startField
  else if p = ofChar '\r' then s.saveField .afterReturn
  else if p = ofChar '\n' then (s.saveField .startRow).saveRow
  else other

def step (s : Reader) (p : CodePoint) : Reader :=
  match s.mode with
  | .startRow =>
    if p = ofChar '\r' then { s with mode := .afterReturn }
    else if p = ofChar '\n' then s.saveRow
    else if p = ofChar '"' then { s with mode := .inQuotes }
    else s.endField p (s.addChar p .inField)
  | .startField => if p = ofChar '"' then { s with mode := .inQuotes } else s.endField p (s.addChar p .inField)
  | .inField => s.endField p (s.addChar p .inField)
  | .inQuotes => if p = ofChar '"' then { s with mode := .quoteInQuotes } else s.addChar p .inQuotes
  | .quoteInQuotes => if p = ofChar '"' then s.addChar p .inQuotes else s.endField p (s.addChar p .inField)
  | .afterReturn => if p = ofChar '\n' then s.saveRow else { s with mode := .refused }
  | .refused => s

def new : Reader := ⟨[], [], [], .startRow⟩

end Reader

def readFrom (s : Reader) (t : Text) : Reader := t.foldl Reader.step s

/-- the rows of a text -/
def read (t : Text) : Option (List (List Text)) :=
  let s := readFrom .new t
  if s.mode = .startRow then some s.rows else none

/-! ## Reading what was written -/

theorem readFrom_append (s : Reader) (t u : Text) : readFrom s (t ++ u) = readFrom (readFrom s t) u := List.foldl_append

theorem readFrom_cons (s : Reader) (p : CodePoint) (t : Text) : readFrom s (p :: t) = readFrom (s.step p) t := rfl

variable {rows : List (List Text)} {row : List Text} {acc field : Text}

theorem not_special {p : CodePoint} (h : isSpecial p = false) :
    p ≠ ofChar ',' ∧ p ≠ ofChar '"' ∧ p ≠ ofChar '\r' ∧ p ≠ ofChar '\n' := by
  rw [isSpecial, decide_eq_false_iff_not] at h
  push Not at h
  exact h

/-- plain characters within a field -/
theorem readFrom_plain (h : ∀ p ∈ field, isSpecial p = false) :
    readFrom ⟨rows, row, acc, .inField⟩ field = ⟨rows, row, acc ++ field, .inField⟩ := by
  induction field generalizing acc with
  | nil => rw [List.append_nil]; rfl
  | cons p field ih =>
    obtain ⟨h1, -, h3, h4⟩ := not_special (h p List.mem_cons_self)
    have hstep : Reader.step ⟨rows, row, acc, .inField⟩ p = ⟨rows, row, acc ++ [p], .inField⟩ := by
      simp [Reader.step, Reader.endField, Reader.addChar, h1, h3, h4]
    rw [readFrom_cons, hstep, ih fun q hq => h q (List.mem_cons_of_mem p hq), List.append_assoc]
    rfl

/-- doubled quotes within quotes -/
theorem readFrom_double (field : Text) :
    readFrom ⟨rows, row, acc, .inQuotes⟩ (double field) = ⟨rows, row, acc ++ field, .inQuotes⟩ := by
  induction field generalizing acc with
  | nil => rw [List.append_nil]; rfl
  | cons p field ih =>
    have hcons : readFrom ⟨rows, row, acc, .inQuotes⟩ (if p = ofChar '"' then [p, p] else [p]) =
        ⟨rows, row, acc ++ [p], .inQuotes⟩ := by
      by_cases hp : p = ofChar '"'
      · rw [if_pos hp]
        simp [readFrom, Reader.step, Reader.addChar, hp]
      · rw [if_neg hp]
        simp [readFrom, Reader.step, Reader.addChar, hp]
    calc readFrom ⟨rows, row, acc, .inQuotes⟩ (double (p :: field))
        = readFrom ⟨rows, row, acc, .inQuotes⟩ ((if p = ofChar '"' then [p, p] else [p]) ++ double field) := rfl
      _ = readFrom ⟨rows, row, acc ++ [p], .inQuotes⟩ (double field) := by rw [readFrom_append, hcons]
      _ = ⟨rows, row, acc ++ p :: field, .inQuotes⟩ := by rw [ih, List.append_assoc]; rfl

/-- the states in which a field can begin -/
def Begins (mode : Mode) (field : Text) : Prop := mode = .startField ∨ mode = .startRow ∧ field ≠ []

/-- the states in which a field can end -/
def Ends (mode : Mode) : Prop := mode = .startField ∨ mode = .inField ∨ mode = .quoteInQuotes

theorem readFrom_quoted {mode : Mode} (h : mode = .startField ∨ mode = .startRow) (field : Text) :
    readFrom ⟨rows, row, [], mode⟩ (quoted field) = ⟨rows, row, field, .quoteInQuotes⟩ := by
  have hopen : Reader.step ⟨rows, row, [], mode⟩ (ofChar '"') = ⟨rows, row, [], .inQuotes⟩ := by
    rcases h with rfl | rfl <;> rfl
  have hclose : ∀ acc, Reader.step ⟨rows, row, acc, .inQuotes⟩ (ofChar '"') = ⟨rows, row, acc, .quoteInQuotes⟩ := fun _ => rfl
  rw [quoted, readFrom_cons, hopen, readFrom_append, readFrom_double, readFrom_cons, hclose]
  rfl

/-- after a written field the reader has it, in a state in which it can end -/
theorem readFrom_writeField {mode : Mode} (h : Begins mode field) :
    ∃ mode', Ends mode' ∧ readFrom ⟨rows, row, [], mode⟩ (writeField field) = ⟨rows, row, field, mode'⟩ := by
  by_cases hspecial : field.any isSpecial
  · rw [writeField, if_pos hspecial]
    exact ⟨.quoteInQuotes, Or.inr (Or.inr rfl), readFrom_quoted (h.imp_right And.left) field⟩
  · rw [writeField, if_neg hspecial]
    have hplain : ∀ p ∈ field, isSpecial p = false := fun p hp =>
      Bool.eq_false_iff.2 fun hs => hspecial (List.any_eq_true.2 ⟨p, hp, hs⟩)
    cases field with
    | nil =>
      rcases h with rfl | ⟨-, hne⟩
      · exact ⟨.startField, Or.inl rfl, rfl⟩
      · exact absurd rfl hne
    | cons p field =>
      obtain ⟨h1, h2, h3, h4⟩ := not_special (hplain p List.mem_cons_self)
      have hfirst : Reader.step ⟨rows, row, [], mode⟩ p = ⟨rows, row, [p], .inField⟩ := by
        rcases h with rfl | ⟨rfl, -⟩ <;> simp [Reader.step, Reader.endField, Reader.addChar, h1, h2, h3, h4]
      refine ⟨.inField, Or.inr (Or.inl rfl), ?_⟩
      rw [readFrom_cons, hfirst, readFrom_plain fun q hq => hplain q (List.mem_cons_of_mem p hq)]
      rfl

theorem step_comma {mode : Mode} (h : Ends mode) :
    Reader.step ⟨rows, row, field, mode⟩ (ofChar ',') = ⟨rows, row ++ [field], [], .startField⟩ := by
  rcases h with rfl | rfl | rfl <;> rfl

theorem step_return {mode : Mode} (h : Ends mode) :
    Reader.step ⟨rows, row, field, mode⟩ (ofChar '\r') = ⟨rows, row ++ [field], [], .afterReturn⟩ := by
  rcases h with rfl | rfl | rfl <;> rfl

theorem step_lineFeed (row : List Text) :
    Reader.step ⟨rows, row, [], .afterReturn⟩ (ofChar '\n') = ⟨rows ++ [row], [], [], .startRow⟩ := rfl

/-- the rest of a row -/
theorem readFrom_writeFields {mode : Mode} (h : Ends mode) (fields : List Text) :
    readFrom ⟨rows, row, field, mode⟩ (writeFields fields) = ⟨rows ++ [row ++ field :: fields], [], [], .startRow⟩ := by
  induction fields generalizing row field mode with
  | nil =>
    rw [writeFields, readFrom_cons, step_return h, readFrom_cons, step_lineFeed]
    rfl
  | cons field' fields ih =>
    obtain ⟨mode', hends, hread⟩ := @readFrom_writeField rows (row ++ [field]) field' .startField (Or.inl rfl)
    rw [writeFields, readFrom_cons, step_comma h, readFrom_append, hread, ih hends, List.append_assoc]
    rfl

theorem readFrom_writeRow (row : List Text) :
    readFrom ⟨rows, [], [], .startRow⟩ (writeRow row) = ⟨rows ++ [row], [], [], .startRow⟩ := by
  match row with
  | [] => rfl
  | [[]] =>
    rw [writeRow, readFrom_append, readFrom_quoted (Or.inr rfl), readFrom_writeFields (Or.inr (Or.inr rfl))]
    rfl
  | [] :: field :: fields =>
    -- the first field is empty and is not written at all
    have hcomma : Reader.step ⟨rows, [], [], .startRow⟩ (ofChar ',') = ⟨rows, [[]], [], .startField⟩ := rfl
    obtain ⟨mode', hends, hread⟩ := @readFrom_writeField rows [[]] field .startField (Or.inl rfl)
    change readFrom ⟨rows, [], [], .startRow⟩ (ofChar ',' :: (writeField field ++ writeFields fields)) = _
    rw [readFrom_cons, hcomma, readFrom_append, hread, readFrom_writeFields hends]
    rfl
  | (p :: field) :: fields =>
    obtain ⟨mode', hends, hread⟩ := @readFrom_writeField rows [] (p :: field) .startRow (Or.inr ⟨rfl, List.cons_ne_nil p field⟩)
    have hrow : writeRow ((p :: field) :: fields) = writeField (p :: field) ++ writeFields fields := by
      simp [writeRow]
    rw [hrow, readFrom_append, hread, readFrom_writeFields hends]
    rfl

/-- **Rows are read as they were written.** -/
theorem read_write (rows : List (List Text)) : read (write rows) = some rows := by
  have hrun : ∀ done : List (List Text), readFrom ⟨done, [], [], .startRow⟩ (write rows) = ⟨done ++ rows, [], [], .startRow⟩ := by
    induction rows with
    | nil =>
      intro done
      rw [List.append_nil]
      rfl
    | cons row rows ih =>
      intro done
      rw [write, List.flatMap_cons, readFrom_append, readFrom_writeRow, ← write, ih, List.append_assoc]
      rfl
  rw [read, Reader.new, hrun []]
  rfl

end AbirGuard.Core.Csv
