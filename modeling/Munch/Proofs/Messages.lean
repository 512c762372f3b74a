import Munch.Diagnostic
import Munch.Proofs.Escaping
import Std.Data.String.ToNat

/-!
# Messages can be told apart

A message is read from the left: the number of the line ends at the blank behind it, the words
behind this blank tell the kind of the cause, and what is told of a cause is numbers that end at a
blank, written forms of characters, quoted texts and a name that goes on up to the last word. So a
message is the message of one cause in one line, and of one column where it tells the column.
-/

namespace Munch

namespace Text

variable {m n : Nat} {rest rest' : List Char}

/-- A number ends where the blank behind it stands. -/
theorem takeWhile_isDigit_toString (n : Nat) (rest : List Char) :
    ((toString n).toList ++ ' ' :: rest).takeWhile Char.isDigit = (toString n).toList := by
  have hdigits : ∀ c ∈ (toString n).toList, c.isDigit := by
    intro c hc
    rw [Nat.toString_eq_repr, Nat.repr_eq_ofList_toDigits, String.toList_ofList] at hc
    exact Nat.isDigit_of_mem_toDigits (by decide) (by decide) hc
  rw [List.takeWhile_append_of_pos hdigits]
  simp

/-- Texts that begin with numbers and blanks agree only if the numbers do. -/
theorem toString_append_inj
    (h : (toString m).toList ++ ' ' :: rest = (toString n).toList ++ ' ' :: rest') :
    m = n ∧ rest = rest' := by
  have hdigits := congrArg (List.takeWhile Char.isDigit) h
  rw [takeWhile_isDigit_toString, takeWhile_isDigit_toString] at hdigits
  rw [hdigits] at h
  rw [String.toList_inj, Nat.toString_eq_repr, Nat.toString_eq_repr, Nat.repr_inj] at hdigits
  exact ⟨hdigits, (List.cons.inj (List.append_cancel_left h)).2⟩

/-- Different texts are quoted differently. -/
theorem quote_injective : Function.Injective quote := by
  intro s s' h
  have htext : (quote s).toList ++ [] = (quote s').toList ++ [] := by rw [h]
  exact (toList_quote_append_inj htext).1

end Text

/-- What stopped a walk is told by its written form: the end of a source is written like no
character, and no two characters are written alike. -/
theorem writeFound_injective : Function.Injective writeFound := by
  -- of the mark for the end more is left than one character takes
  have hend (c : Char) : writeFound (some c) ≠ writeFound none := by
    intro h
    have htext : Text.escape c = "<EOF>".toList :=
      String.toList_ofList.symm.trans (congrArg String.toList h)
    have hread := Text.unescape_escape_append c []
    rw [List.append_nil, htext] at hread
    simp [Text.unescape] at hread
  intro found found' h
  cases found with
  | none =>
      cases found' with
      | none => rfl
      | some c' => exact absurd h.symm (hend c')
  | some c =>
      cases found' with
      | none => exact absurd h (hend c)
      | some c' =>
          have htext : Text.escape c ++ [] = Text.escape c' ++ [] := by
            rw [List.append_nil, List.append_nil]
            exact String.ofList_injective h
          rw [(Text.escape_append_inj htext).1]

namespace Cause

/-- The message of a cause, character by character. -/
theorem toList_message (cause : Cause) : cause.message.toList =
    match cause with
    | unexpectedCharacter found => "unexpected character: ".toList ++ (writeFound found).toList
    | malformedRow fields row => "malformed transition row (".toList ++
        ((toString fields).toList ++ ' ' :: ("fields): ".toList ++ (Text.quote row).toList))
    | unknownSymbol symbol => "unknown symbol class ".toList ++ (Text.quote symbol).toList
    | missingHeader header => "missing ".toList ++ (header.toList ++ " line".toList) := by
  cases cause with
  | unexpectedCharacter found => exact String.toList_append
  | malformedRow fields row =>
      show ("malformed transition row (" ++ toString fields ++ " fields): " ++
        Text.quote row).toList = _
      rw [String.toList_append, String.toList_append, String.toList_append]
      simp
  | unknownSymbol symbol => exact String.toList_append
  | missingHeader header =>
      show ("missing " ++ header ++ " line").toList = _
      rw [String.toList_append, String.toList_append, List.append_assoc]

/-- The words with which a message begins tell the kind of the cause, and what follows them tells
all else. -/
theorem message_injective : Function.Injective message := by
  intro cause cause' h
  have htext := congrArg String.toList h
  rw [toList_message, toList_message] at htext
  cases cause with
  | unexpectedCharacter found =>
      cases cause' with
      | unexpectedCharacter found' =>
          have hfound := String.toList_inj.mp (List.append_cancel_left htext)
          rw [writeFound_injective hfound]
      | _ => simp at htext
  | malformedRow fields row =>
      cases cause' with
      | malformedRow fields' row' =>
          obtain ⟨rfl, hrow⟩ := Text.toString_append_inj (List.append_cancel_left htext)
          rw [Text.quote_injective (String.toList_inj.mp (List.append_cancel_left hrow))]
      | _ => simp at htext
  | unknownSymbol symbol =>
      cases cause' with
      | unknownSymbol symbol' =>
          have hsymbol := String.toList_inj.mp (List.append_cancel_left htext)
          rw [Text.quote_injective hsymbol]
      | _ => simp at htext
  | missingHeader header =>
      cases cause' with
      | missingHeader header' =>
          have hheader := List.append_cancel_right (List.append_cancel_left htext)
          rw [String.toList_inj.mp hheader]
      | _ => simp at htext

end Cause

namespace Diagnostic

variable {d d' : Diagnostic}

/-- What a message tells behind the number of the line. -/
def told (d : Diagnostic) : List Char :=
  match d.cause with
  | .unexpectedCharacter found => "Row: ".toList ++
      ((toString d.location.column).toList ++ ' ' ::
        ("Unexpected character: ".toList ++ (writeFound found).toList))
  | cause => cause.message.toList

/-- A message tells the line first, and the column and the cause behind it. -/
theorem toList_message (d : Diagnostic) : d.message.toList =
    "Error at Line: ".toList ++ ((toString d.location.line).toList ++ ' ' :: d.told) := by
  obtain ⟨cause, l⟩ := d
  cases cause with
  | unexpectedCharacter found =>
      show ("Error at Line: " ++ toString l.line ++ (" Row: " ++ toString l.column ++
        " Unexpected character: " ++ writeFound found)).toList = _
      simp only [String.toList_append, told]
      simp
  | _ =>
      show ("Error at Line: " ++ toString l.line ++ (" " ++ Cause.message _)).toList = _
      simp only [String.toList_append, told]
      simp

/-- What follows the number of the line tells first whether the failure lies in a source. -/
theorem head?_told : d.told.head? = some 'R' ↔ d.cause.isLexical := by
  obtain ⟨cause, l⟩ := d
  cases cause <;> simp [told, Cause.toList_message, Cause.isLexical]

/-- The column is told of an unexpected character only. -/
theorem told_eq_iff : d.told = d'.told ↔
    d.cause = d'.cause ∧ (d.cause.isLexical → d.location.column = d'.location.column) := by
  constructor
  · intro h
    have hlexical : d.cause.isLexical = d'.cause.isLexical := by
      rw [Bool.eq_iff_iff, ← head?_told, ← head?_told, h]
    obtain ⟨cause, l⟩ := d
    obtain ⟨cause', l'⟩ := d'
    cases cause with
    | unexpectedCharacter found =>
        cases cause' with
        | unexpectedCharacter found' =>
            obtain ⟨hcolumn, htext⟩ := Text.toString_append_inj (List.append_cancel_left h)
            have hfound := String.toList_inj.mp (List.append_cancel_left htext)
            exact ⟨congrArg Cause.unexpectedCharacter (writeFound_injective hfound),
              fun _ => hcolumn⟩
        | _ => simp [Cause.isLexical] at hlexical
    | _ =>
        cases cause' with
        | unexpectedCharacter found' => simp [Cause.isLexical] at hlexical
        | _ => exact ⟨Cause.message_injective (String.toList_inj.mp h), by simp [Cause.isLexical]⟩
  · rintro ⟨hcause, hcolumn⟩
    obtain ⟨cause, l⟩ := d
    obtain ⟨_, l'⟩ := d'
    subst hcause
    cases cause with
    | unexpectedCharacter found =>
        simp only [told]
        rw [hcolumn rfl]
    | _ => rfl

/-- Two messages are the same exactly if they are about the same cause, with all that it tells, in
the same line, and, for an unexpected character, in the same column. Each character and the end of a
source have a written form of their own, and a quoted text is the only one that is quoted like
this. -/
theorem message_tells_cause (d d' : Diagnostic) :
    (d.message = d'.message ↔ d.cause = d'.cause ∧ d.location.line = d'.location.line ∧
      (d.cause.isLexical → d.location.column = d'.location.column)) ∧
    Function.Injective writeFound ∧ Function.Injective Text.quote := by
  refine ⟨?_, writeFound_injective, Text.quote_injective⟩
  rw [← String.toList_inj, toList_message, toList_message]
  constructor
  · intro h
    obtain ⟨hline, htold⟩ := Text.toString_append_inj (List.append_cancel_left h)
    obtain ⟨hcause, hcolumn⟩ := told_eq_iff.mp htold
    exact ⟨hcause, hline, hcolumn⟩
  · rintro ⟨hcause, hline, hcolumn⟩
    rw [hline, told_eq_iff.mpr ⟨hcause, hcolumn⟩]

/-- A row that imitates the escapes of another one has a message of its own, and the column of a row
does not show. -/
theorem message_tells_cause_imitated :
    let row (text : String) (column : Nat) : Diagnostic :=
      ⟨.malformedRow 2 text, ⟨5, 3, column⟩⟩
    (row "init \"" 1).message ≠ (row "init \\\"" 1).message ∧
      (row "init \"" 1).message = (row "init \"" 9).message := by
  intro row
  obtain ⟨hdifferent, -⟩ := message_tells_cause (row "init \"" 1) (row "init \\\"" 1)
  obtain ⟨hsame, -⟩ := message_tells_cause (row "init \"" 1) (row "init \"" 9)
  refine ⟨fun h => ?_, hsame.mpr ⟨rfl, rfl, fun h => by simp [row, Cause.isLexical] at h⟩⟩
  have hcause := (hdifferent.mp h).1
  simp [row] at hcause

end Diagnostic

end Munch
