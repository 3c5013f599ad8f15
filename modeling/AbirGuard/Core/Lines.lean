/-
Text as a sequence of lines.

The reader ends a line at a line feed or at the end of the input, leaves out the line feed and one carriage return before it, and
gives no empty line after the last line feed. A line that is not UTF-8 is none.

- `split_append`: what a line feed ends is the first line.
- `lines_unlines`: lines without a line feed, and with no carriage return at their end, are read as they were written.
-/
import AbirGuard.Core.Utf8Lossy

namespace AbirGuard.Core.Lines

def lf : UInt8 := 10

def cr : UInt8 := 13

/-! ## Reading and writing -/

/-- the lines, each with whether a line feed ends it -/
def split : Bytes → List (Bytes × Bool)
  | [] => []
  | b :: bytes =>
    if b = lf then ([], true) :: split bytes
    else match split bytes with
      | [] => [([b], false)]
      | (line, ended) :: rest => (b :: line, ended) :: rest

/-- a line without the carriage return before its line feed -/
def content (line : Bytes × Bool) : Bytes :=
  if line.2 = true ∧ line.1.getLast? = some cr then line.1.dropLast else line.1

/-- the lines of an input, none for one that is not UTF-8 -/
def lines (input : Bytes) : List (Option String) := (split input).map fun line => fromUtf8 (content line)

/-- every line with a line feed after it -/
def unlines (ls : List String) : Bytes := ls.flatMap fun s => utf8 s ++ [lf]

/-- a text that is one line -/
structure OneLine (s : String) : Prop where
  lf : '\n' ∉ s.toList
  cr : s.toList.getLast? ≠ some '\r'

/-! ## Reading what was written -/

theorem split_append {line : Bytes} (h : lf ∉ line) (rest : Bytes) : split (line ++ lf :: rest) = (line, true) :: split rest := by
  induction line with
  | nil => rfl
  | cons b line ih =>
    obtain ⟨hb, hline⟩ := not_or.1 (mt List.mem_cons.2 h)
    rw [List.cons_append, split, if_neg (Ne.symm hb), ih hline]

/-- the bytes of a character that is not ASCII are not ASCII -/
theorem not_ascii_of_mem {c : Char} (h : ¬ c.toNat < 128) {b : UInt8} (hb : b ∈ String.utf8EncodeChar c) : 128 ≤ b.toNat := by
  rw [utf8EncodeChar_eq, encodePoint, if_neg (by omega)] at hb
  have hall : ∀ p ∈ (if c.toNat ≤ 0x7ff then
      [UInt8.ofNat (c.toNat / 64 % 0x20 + 0xc0), UInt8.ofNat (c.toNat % 0x40 + 0x80)]
    else if c.toNat ≤ 0xffff then
      [UInt8.ofNat (c.toNat / 4096 % 0x10 + 0xe0), UInt8.ofNat (c.toNat / 64 % 0x40 + 0x80), UInt8.ofNat (c.toNat % 0x40 + 0x80)]
    else
      [UInt8.ofNat (c.toNat / 262144 % 0x08 + 0xf0), UInt8.ofNat (c.toNat / 4096 % 0x40 + 0x80),
        UInt8.ofNat (c.toNat / 64 % 0x40 + 0x80), UInt8.ofNat (c.toNat % 0x40 + 0x80)]), 128 ≤ p.toNat := by
    split_ifs <;>
      simp only [List.forall_mem_cons, List.not_mem_nil, IsEmpty.forall_iff, implies_true, and_true, UInt8.toNat_ofNat'] <;>
      omega
  exact hall b hb

/-- an ASCII byte is in the bytes of a character only if it is that character -/
theorem mem_utf8EncodeChar {c : Char} {b : UInt8} (hb : b ∈ String.utf8EncodeChar c) (hascii : b.toNat < 128) :
    c.toNat = b.toNat := by
  by_cases h : c.toNat < 128
  · rw [utf8EncodeChar_ascii h, List.mem_singleton] at hb
    rw [hb, UInt8.toNat_ofNat', Nat.mod_eq_of_lt (by omega)]
  · exact absurd (not_ascii_of_mem h hb) (by omega)

theorem lf_not_mem_utf8 {s : String} (h : '\n' ∉ s.toList) : lf ∉ utf8 s := by
  intro hmem
  rw [utf8_eq_flatMap, List.mem_flatMap] at hmem
  obtain ⟨c, hc, hb⟩ := hmem
  have hval : c.toNat = '\n'.toNat := mem_utf8EncodeChar hb (by decide)
  rw [Char.toNat_inj.1 hval] at hc
  exact h hc

/-- a carriage return at the end of the bytes is one at the end of the text -/
theorem getLast_utf8 {s : String} (h : (utf8 s).getLast? = some cr) : s.toList.getLast? = some '\r' := by
  rw [utf8_eq_flatMap] at h
  cases hs : s.toList using List.reverseRecOn with
  | nil =>
    rw [hs] at h
    cases h
  | append_singleton cs c =>
    rw [hs, List.flatMap_append, List.flatMap_singleton, List.getLast?_append] at h
    obtain ⟨b, tail, hencode, -⟩ := complete_encode c
    have hmem : cr ∈ String.utf8EncodeChar c := by
      rw [hencode, List.getLast?_cons, Option.some_or] at h
      rw [hencode]
      exact List.mem_of_getLast? ((List.getLast?_cons ..).trans h)
    have hval : c.toNat = '\r'.toNat := mem_utf8EncodeChar hmem (by decide)
    rw [Char.toNat_inj.1 hval, List.getLast?_concat]

theorem content_utf8 {s : String} (h : OneLine s) : content (utf8 s, true) = utf8 s := by
  rw [content, if_neg]
  rintro ⟨-, hlast⟩
  exact h.cr (getLast_utf8 hlast)

/-- **Lines are read as they were written.** -/
theorem lines_unlines {ls : List String} (h : ∀ s ∈ ls, OneLine s) : lines (unlines ls) = ls.map some := by
  induction ls with
  | nil => rfl
  | cons s ls ih =>
    have hs := h s List.mem_cons_self
    have hsplit : split (unlines (s :: ls)) = (utf8 s, true) :: split (unlines ls) := by
      rw [unlines, List.flatMap_cons, List.append_assoc]
      exact split_append (lf_not_mem_utf8 hs.lf) _
    rw [lines, hsplit, List.map_cons, content_utf8 hs, fromUtf8_utf8, List.map_cons]
    exact congrArg _ (ih fun t ht => h t (List.mem_cons_of_mem _ ht))

end AbirGuard.Core.Lines
