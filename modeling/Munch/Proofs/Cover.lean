import Munch.Proofs.Run

/-!
# Tokens cover their source

The values of the tokens and the gaps around them make up the source, and the extents say where each
value stands. `Tiles` puts this together piece after piece; that each extent cuts its value out of
the source, and that no two extents overlap, follows from it.
-/

namespace Munch

/-- `text` stands at an index of a source and consists of gaps and the values of the tokens by
turns, with the extents as the pieces lie. No value is empty or begins like a gap. -/
inductive Tiles : Nat → List Token → List Char → Prop
  | gap {i : Nat} {gap : List Char} (hgap : ∀ c ∈ gap, isGap c) : Tiles i [] gap
  | token {i : Nat} {gap text : List Char} {tok : Token} {toks : List Token}
      (hgap : ∀ c ∈ gap, isGap c) (hne : tok.value ≠ "")
      (hhead : ∀ c, tok.value.toList.head? = some c → ¬ isGap c)
      (hstart : tok.extent.start.index = i + gap.length)
      (hstop : tok.extent.stop.index = i + gap.length + tok.value.length)
      (htiles : Tiles tok.extent.stop.index toks text) :
      Tiles i (tok :: toks) (gap ++ tok.value.toList ++ text)

/-- The part of a text that an extent tells. -/
def Extent.slice (e : Extent) (text : List Char) : List Char :=
  (text.drop e.start.index).take (e.stop.index - e.start.index)

namespace Tiles

variable {i : Nat} {toks : List Token} {text : List Char}

/-- No token begins before its text does. -/
theorem le_start (h : Tiles i toks text) : ∀ tok ∈ toks, i ≤ tok.extent.start.index := by
  induction h with
  | gap hgap => simp
  | token hgap hne hhead hstart hstop htiles ih =>
      intro tok htok
      rcases List.mem_cons.mp htok with rfl | htok
      · omega
      · have := ih tok htok
        omega

/-- Each token ends before the next one begins. -/
theorem pairwise (h : Tiles i toks text) :
    toks.Pairwise fun a b => a.extent.stop.index ≤ b.extent.start.index := by
  induction h with
  | gap hgap => exact List.Pairwise.nil
  | token hgap hne hhead hstart hstop htiles ih => exact ih.cons htiles.le_start

/-- The extent of a token cuts its value out of the source. -/
theorem slice_eq (h : Tiles i toks text) (before after : List Char) (hi : before.length = i) :
    ∀ tok ∈ toks, tok.extent.slice (before ++ text ++ after) = tok.value.toList := by
  induction h generalizing before with
  | gap hgap => simp
  | @token i gap text tok' toks hgap hne hhead hstart hstop htiles ih =>
      intro tok htok
      rcases List.mem_cons.mp htok with rfl | htok
      -- the value of the first token stands right behind the gap, a later one in the rest
      · have hdrop : before ++ (gap ++ tok.value.toList ++ text) ++ after =
            (before ++ gap) ++ (tok.value.toList ++ (text ++ after)) := by simp
        have hstart' : tok.extent.start.index = (before ++ gap).length := by simp [hstart, hi]
        have hlength : tok.extent.stop.index - tok.extent.start.index =
            tok.value.toList.length := by simp [hstart, hstop, String.length_toList]
        rw [Extent.slice, hlength, hstart', hdrop, List.drop_left, List.take_left]
      · have hbefore : (before ++ gap ++ tok'.value.toList).length = tok'.extent.stop.index := by
          simp [hstop, hi, String.length_toList, Nat.add_assoc]
        have := ih _ hbefore tok htok
        simpa using this

end Tiles

/-- The text before a failure is tiled; the walk that fails begins behind it, where a token could
begin but no accepted text does, and the failure is located where this walk is stuck. -/
def FailsBehind (t : Table) (text : List Char) (toks : List Token) (d : Diagnostic) : Prop :=
  ∃ read rest stuck, read ++ rest = text ∧ Tiles 0 toks read ∧ Scanner.AtToken rest ∧
    t.Rejects rest ∧ t.Stuck rest stuck ∧ d.location.index = read.length + stuck.length

namespace Scanner

variable {t : Table}

/-- A text that is cut into tokens is tiled, and so is the text before a failure. -/
theorem Scans.tiles {before text : List Char} {toks : List Token} {d? : Option Diagnostic}
    (h : Scans t before text toks d?) :
    ∃ read rest, read ++ rest = text ∧ Tiles before.length toks read ∧
      ((d? = none ∧ rest = []) ∨
        (AtToken rest ∧ t.Rejects rest ∧ ∃ d stuck, d? = some d ∧ t.Stuck rest stuck ∧
          d.location.index = (before ++ read ++ stuck).length)) := by
  induction h with
  | @ended before gap hgap => exact ⟨gap, [], by simp, .gap hgap, Or.inl ⟨rfl, rfl⟩⟩
  | @failed before gap stuck after hgap hat hrejects hstuck =>
      refine ⟨gap, stuck ++ after, rfl, .gap hgap, Or.inr ?_⟩
      exact ⟨hat, hrejects, _, stuck, rfl, hstuck, rfl⟩
  | @read before gap value after state toks d? hgap hat hlongest hdrive hscans ih =>
      obtain ⟨read, rest, rfl, htiles, hend⟩ := ih
      let tok := tokenBehind t (before ++ gap) value state
      have htok : gap ++ (value ++ read) = gap ++ tok.value.toList ++ read := by
        simp [tok, tokenBehind]
      refine ⟨gap ++ (value ++ read), rest, by simp, ?_, by simpa using hend⟩
      rw [htok]
      have hvalue : AtToken value := hat.of_append hlongest.ne_nil
      have hstop : (before ++ gap ++ value).length = tok.extent.stop.index := by
        simp [tok, tokenBehind]
      rw [hstop] at htiles
      refine .token hgap ?_ ?_ ?_ ?_ htiles
      · simpa [tok, tokenBehind] using hlongest.ne_nil
      · obtain ⟨c, hhead, hc⟩ := hvalue
        simpa [tok, tokenBehind, hhead] using hc
      · simp [tokenBehind]
      · simp [tokenBehind, Nat.add_assoc]

end Scanner

/-- The tokens of a source and the gaps around them are the source, each extent cuts out the value
of its token, and each token ends before the next one begins. Gaps hold spaces, tabs and newlines
only. If scanning fails, the same holds of the tokens read until then and the text up to the place
where the walk that fails begins. -/
theorem tokens_tile_source (t : Table) (source : String) :
    (∀ c, isGap c ↔ c = ' ' ∨ c = '\t' ∨ c = '\n') ∧
    (∀ toks, t.tokens source = .ok toks →
      Tiles 0 toks source.toList ∧
      (∀ tok ∈ toks, tok.extent.slice source.toList = tok.value.toList) ∧
      toks.Pairwise fun a b => a.extent.stop.index ≤ b.extent.start.index) ∧
    (∀ d, t.tokens source = .error d →
      let toks := (Scanner.start t source).run.tokens
      FailsBehind t source.toList toks d ∧
      (∀ tok ∈ toks, tok.extent.slice source.toList = tok.value.toList) ∧
      toks.Pairwise fun a b => a.extent.stop.index ≤ b.extent.start.index) := by
  refine ⟨fun _ => Scanner.isGap_iff, ?_, ?_⟩
  · intro toks htoks
    obtain ⟨read, rest, htext, htiles, ⟨-, rfl⟩ | ⟨-, -, d, stuck, hnone, -⟩⟩ :=
      (Table.tokens_eq_ok_iff.mp htoks).tiles
    · rw [List.append_nil] at htext
      subst htext
      exact ⟨htiles, by simpa using htiles.slice_eq [] [] rfl,
        htiles.pairwise⟩
    · simp at hnone
  · intro d hd toks
    obtain ⟨read, rest, htext, htiles, ⟨hsome, -⟩ |
      ⟨hat, hrejects, d', stuck, hsome, hstuck, hindex⟩⟩ := (Table.tokens_eq_error_iff.mp hd).tiles
    · simp at hsome
    · obtain rfl := Option.some.inj hsome
      refine ⟨⟨read, rest, stuck, htext, htiles, hat, hrejects, hstuck, by simpa using hindex⟩, ?_,
        htiles.pairwise⟩
      rw [← htext]
      simpa using htiles.slice_eq [] rest rfl

/-- With a point behind the last number the tokens stay, and the walk over it fails. -/
theorem tokens_tile_source_numbers :
    (∃ toks, Table.numbers.tokens "12.5 7" = .ok toks ∧ Tiles 0 toks "12.5 7".toList) ∧
    ∃ d, Table.numbers.tokens "12.5 7 ." = .error d ∧
      FailsBehind .numbers "12.5 7 .".toList (Scanner.start .numbers "12.5 7 .").run.tokens d := by
  constructor
  · cases htoks : Table.numbers.tokens "12.5 7" with
    | ok toks => exact ⟨toks, rfl, ((tokens_tile_source .numbers "12.5 7").2.1 toks htoks).1⟩
    | error d =>
        have hok : (Table.numbers.tokens "12.5 7").toBool = true := by decide +kernel
        simp [htoks, Except.toBool] at hok
  · cases htoks : Table.numbers.tokens "12.5 7 ." with
    | ok toks =>
        have herror : (Table.numbers.tokens "12.5 7 .").toBool = false := by decide +kernel
        simp [htoks, Except.toBool] at herror
    | error d => exact ⟨d, rfl, ((tokens_tile_source .numbers "12.5 7 .").2.2 d htoks).1⟩

end Munch
