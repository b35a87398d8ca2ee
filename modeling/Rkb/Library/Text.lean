import Rkb.Library.Bytes

namespace Rkb.Library.Text

open Rkb.Library.Bytes

def stripReturn (line : List Char) : List Char :=
  if line.getLast? = some '\r' then line.dropLast else line

/-- The lines of a text, `acc` being the current line so far in reverse. What
follows the last line feed is a line of its own when it is not empty. -/
def linesFrom (acc : List Char) : List Char → List (List Char)
  | [] => if acc = [] then [] else [acc.reverse]
  | c :: cs =>
      if c = '\n' then stripReturn acc.reverse :: linesFrom [] cs
      else linesFrom (c :: acc) cs

def lines (text : List Char) : List (List Char) := linesFrom [] text

theorem linesFrom_append {acc line : List Char} (hline : '\n' ∉ line) (rest : List Char) :
    linesFrom acc (line ++ '\n' :: rest) = stripReturn (acc.reverse ++ line) :: lines rest := by
  induction line generalizing acc with
  | nil => simp [linesFrom, lines]
  | cons c cs ih =>
      simp only [List.mem_cons, not_or] at hline
      rw [List.cons_append, linesFrom, if_neg (Ne.symm hline.1), ih hline.2]
      simp

theorem lines_append {line : List Char} (hfeed : '\n' ∉ line) (hreturn : '\r' ∉ line)
    (rest : List Char) : lines (line ++ '\n' :: rest) = line :: lines rest := by
  have hstrip : stripReturn line = line := by
    rw [stripReturn, if_neg]
    intro hlast
    exact hreturn (List.mem_of_getLast? hlast)
  rw [lines, linesFrom_append hfeed, List.reverse_nil, List.nil_append, hstrip]

@[simp] theorem lines_nil : lines [] = [] := rfl

def Terminated (text : List Char) : Prop := text = [] ∨ ∃ body, text = body ++ ['\n']

theorem linesFrom_feed_append (acc body rest : List Char) :
    linesFrom acc (body ++ '\n' :: rest) = linesFrom acc (body ++ ['\n']) ++ lines rest := by
  induction body generalizing acc with
  | nil => simp [linesFrom, lines]
  | cons c cs ih =>
      rw [List.cons_append, List.cons_append, linesFrom, linesFrom]
      split
      · rw [ih, List.cons_append]
      · exact ih _

theorem Terminated.lines_append {text : List Char} (h : Terminated text) (rest : List Char) :
    lines (text ++ rest) = lines text ++ lines rest := by
  rcases h with rfl | ⟨body, rfl⟩
  · rfl
  · rw [List.append_assoc]
    exact linesFrom_feed_append [] body rest

theorem lines_of_notMem {text : List Char} (hfeed : '\n' ∉ text) (htext : text ≠ []) :
    lines text = [text] := by
  have hfrom : ∀ (acc cs : List Char), '\n' ∉ cs → acc.reverse ++ cs ≠ [] →
      linesFrom acc cs = [acc.reverse ++ cs] := by
    intro acc cs hcs hne
    induction cs generalizing acc with
    | nil =>
        rw [List.append_nil] at hne ⊢
        rw [linesFrom, if_neg (mt List.reverse_eq_nil_iff.mpr hne)]
    | cons c cs ih =>
        rw [List.mem_cons, not_or] at hcs
        rw [linesFrom, if_neg (Ne.symm hcs.1)]
        have hmove : (c :: acc).reverse ++ cs = acc.reverse ++ c :: cs := by simp
        rw [← hmove]
        apply ih _ hcs.2
        rw [hmove]
        exact hne
  exact hfrom [] text hfeed htext

def expect (literal : List Char) (text : List Char) : Option (List Char) :=
  if literal.isPrefixOf text then some (text.drop literal.length) else none

def natural (text : List Char) : Option (Nat × List Char) :=
  let digits := text.takeWhile Char.isDigit
  if digits = [] then none
  else some (Nat.ofDigitChars 10 digits 0, text.dropWhile Char.isDigit)

@[simp] theorem expect_append (literal rest : List Char) :
    expect literal (literal ++ rest) = some rest := by
  simp [expect]

theorem span_append {p : Char → Bool} {taken rest : List Char}
    (htaken : ∀ a ∈ taken, p a = true) (hstop : ∀ c ∈ rest.head?, p c = false) :
    (taken ++ rest).takeWhile p = taken ∧ (taken ++ rest).dropWhile p = rest := by
  rw [List.takeWhile_append_of_pos htaken, List.dropWhile_append_of_pos htaken]
  cases rest with
  | nil => simp
  | cons c rest => simp [hstop c rfl]

theorem natural_toDigits (n : Nat) {rest : List Char}
    (hstop : ∀ c ∈ rest.head?, c.isDigit = false) :
    natural (Nat.toDigits 10 n ++ rest) = some (n, rest) := by
  have hdigits : ∀ a ∈ Nat.toDigits 10 n, a.isDigit = true :=
    fun a ha => Nat.isDigit_of_mem_toDigits (by decide) (by decide) ha
  obtain ⟨htake, hdrop⟩ := span_append hdigits hstop
  rw [natural, htake, hdrop, if_neg Nat.toDigits_ne_nil,
    Nat.ofDigitChars_toDigits (by decide) (by decide)]

theorem isAlphanum_of_mem_hexEncode {bs : List UInt8} {c : Char} (hc : c ∈ hexEncode bs) :
    c.isAlphanum = true := by
  have hdigit : ∀ d < 16, (hexDigit d).isAlphanum = true := by decide
  obtain ⟨b, -, hb⟩ := List.mem_flatMap.mp hc
  have hlt : b.toNat < 256 := b.toNat_lt
  simp only [List.mem_cons, List.not_mem_nil, or_false] at hb
  rcases hb with rfl | rfl
  · exact hdigit _ (by omega)
  · exact hdigit _ (by omega)

end Rkb.Library.Text
