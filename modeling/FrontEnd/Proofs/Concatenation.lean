import FrontEnd.Proofs.Diagnostics
import FrontEnd.Proofs.Lexical.Concatenation
import FrontEnd.Proofs.Prefix.ErrorPlace

/-!
# Sources one behind the other

Reading goes on behind an accepted source as if nothing stood in front. What is read of the second
source follows what is read of the first one, and what is wrong with it is reported as far behind as
it stands.
-/

namespace FrontEnd

open Grammar Rule

/-- The program with the definitions of one and then those of another. -/
def Program.append (p q : Program) : Program := ⟨p.fields ++ q.fields, p.methods ++ q.methods⟩

/-- The failure of a source that stands in a text behind some number of characters. -/
def Failure.within (text : String) (n : Nat) : Failure → Failure
  | .reported r => .reported { r with offset := r.offset + n, source := text }
  | .numeral kind => .numeral kind

section Definitions

variable {depth : Nat} {ts rest : List Token}

/-- A definition is read in the same way whatever follows it. -/
lemma definition_append {d : Definition} (h : definition depth ts = .ok (some d) rest)
    (us : List Token) : definition depth (ts ++ us) = .ok (some d) (rest ++ us) := by
  obtain ⟨c, rfl⟩ := leaves_ok (leaves_definition depth) h
  rw [List.append_assoc]
  refine (lookahead_definition (Nat.le_refl depth)).ok h (Alike.refl c) (.inr fun hno => ?_)
  cases hno

/-- Definitions are read one after the other. -/
lemma definitions_append {ds : List Definition} (h : many (definition depth) ts = .ok ds [])
    (us : List Token) : many (definition depth) (ts ++ us) =
      (many (definition depth) >>= fun more => pure (ds ++ more)) us := by
  have hfinds := finds_definition depth
  -- By the number of tokens in front, of which every definition reads some.
  induction hn : ts.length using Nat.strong_induction_on generalizing ts ds with
  | _ n ih =>
    rw [many_apply hfinds] at h
    split at h
    · next left hd =>
      obtain rfl := eq_nil_of_definition hd
      cases h
      rw [List.nil_append, bind_apply]
      cases many (definition depth) us <;> rfl
    · next d left hd =>
      obtain ⟨more, left', hmore, h⟩ := bind_ok.mp h
      cases h
      have hlt := hfinds _ _ _ hd
      have hleft := ih left.length (by omega) hmore rfl
      rw [many_apply hfinds, definition_append hd]
      dsimp only
      rw [bind_apply, hleft, bind_apply, bind_apply]
      cases many (definition depth) us <;> rfl
    · cases h

/-- The tokens of a program are followed by those of another. -/
lemma program_append {p : Program} (h : program depth ts = .ok p []) (us : List Token) :
    program depth (ts ++ us) = (program depth >>= fun q => pure (p.append q)) us := by
  obtain ⟨ds, left, hds, h⟩ := bind_ok.mp h
  cases h
  have hall : program depth (ts ++ us) = (many (definition depth) >>= fun definitions =>
      pure (⟨definitions.filterMap Definition.field?, definitions.filterMap Definition.method?⟩ :
        Program)) (ts ++ us) := rfl
  rw [hall, bind_apply, definitions_append hds, bind_apply, bind_apply, program, bind_apply]
  cases many (definition depth) us with
  | error problem left => rfl
  | ok more left => simp [Program.append]

end Definitions

section Place

variable {n : Nat}

lemma alike_behind (n : Nat) (ts : List Token) : Alike ts (ts.map (Token.behind n)) :=
  .map (Token.behind n) (fun _ => rfl) ts

/-- Tokens moved are read alike, and what is left of them is moved. -/
lemma program_behind {depth : Nat} {us rest : List Token} {problem : Problem}
    (h : program depth us = .error problem rest) :
    program depth (us.map (Token.behind n)) = .error problem (rest.map (Token.behind n)) := by
  have ho := blind_program depth (alike_behind n us)
  rw [h] at ho
  generalize hmoved : program depth (us.map (Token.behind n)) = o at ho
  cases ho with
  | @error _ _ left halike =>
    obtain ⟨c, rfl⟩ := leaves_error (leaves_program depth) h
    obtain ⟨c', hc'⟩ := leaves_error (leaves_program depth) hmoved
    rw [List.map_append] at hc'
    have hlength : left.length = (rest.map (Token.behind n)).length := by
      rw [List.length_map, halike.length_eq]
    rw [(List.append_inj' hc' hlength).2]

/-- The place of a problem among the tokens of the second source. -/
lemma placeOf_behind (ts : List Token) {us : List Token} (hne : us ≠ []) (rest : List Token) :
    placeOf (ts ++ us.map (Token.behind n)) (rest.map (Token.behind n)) =
      ((placeOf us rest).1 + n, (placeOf us rest).2) := by
  cases rest with
  | cons t rest => rfl
  | nil =>
    obtain ⟨front, t, rfl⟩ := (List.eq_nil_or_concat' us).resolve_left hne
    have hstop : (Token.behind n t).stop = t.stop + n := by
      simp only [Token.stop, Token.behind, Token.length]
      omega
    simp [placeOf, hstop, ← List.append_assoc]

lemma failureOf_behind (source text : String) (ts : List Token) {us : List Token} (hne : us ≠ [])
    (rest : List Token) (problem : Problem) :
    failureOf text (ts ++ us.map (Token.behind n)) (rest.map (Token.behind n)) problem =
      (failureOf source us rest problem).within text n := by
  cases problem with
  | numeral kind => rfl
  | syntactic cause =>
    simp only [failureOf, placeOf_behind ts hne]
    rfl

end Place

lemma program_of_parse {source : String} {p : Program} (h : parse source = .ok p) :
    ∃ ts, tokenize source = .ok ts ∧ program maxNesting ts = .ok p [] := by
  obtain ⟨e, -, hp⟩ | ⟨ts, ht, ⟨q, hq, hp⟩ | ⟨problem, rest, -, hp⟩⟩ := parse_cases source
  · rw [hp] at h
    cases h
  · rw [hp] at h
    cases h
    exact ⟨ts, ht, hq⟩
  · rw [hp] at h
    cases h

/-- A source is read behind an accepted one and blanks as it is read alone: its definitions follow
those of the first source, and its failure is the same one, farther behind. -/
theorem reading_composes {first blanks : String} {p : Program} (h : parse first = .ok p)
    (hne : blanks ≠ "") (hblanks : ∀ b ∈ blanks.toList, isBlank b = true) (second : String) :
    (∀ q, parse second = .ok q → parse (first ++ blanks ++ second) =
      .ok ⟨p.fields ++ q.fields, p.methods ++ q.methods⟩) ∧
    ∀ failure, parse second = .error failure → parse (first ++ blanks ++ second) =
      .error (failure.within (first ++ blanks ++ second) (first.length + blanks.length)) := by
  obtain ⟨ts, hts, hp⟩ := program_of_parse h
  constructor
  · intro q hq
    obtain ⟨us, hus, hprogram⟩ := program_of_parse hq
    have hmoved := program_alike (alike_behind (first.length + blanks.length) us) hprogram
    rw [parse_of_tokenize (tokenize_append hts hne hblanks hus), program_append hp,
      bind_of_ok hmoved]
    rfl
  · intro failure hfailure
    obtain ⟨e, hus, hs⟩ | ⟨us, hus, ⟨q, -, hs⟩ | ⟨problem, rest, he, hs⟩⟩ := parse_cases second
    · rw [hs] at hfailure
      cases hfailure
      rw [parse_of_tokenize_error (tokenize_append_error hts hne hblanks hus)]
      have hplace : ((first.length + blanks.length + e.offset : Nat) : Int) =
          e.offset + (first.length + blanks.length : Nat) := by omega
      simp only [LexicalError.report, Failure.within, hplace]
    · rw [hs] at hfailure
      cases hfailure
    · rw [hs] at hfailure
      cases hfailure
      have hne' : us ≠ [] := by
        rintro rfl
        cases he
      rw [parse_of_tokenize (tokenize_append hts hne hblanks hus), program_append hp, bind_apply,
        program_behind he]
      simp only [failureOf_behind second _ ts hne']

theorem misspelled_method_behind_field :
    parse "LET a; DFE" = .error (.reported
      ⟨.syntactic, "expected 'LET' or 'DEF'", 7, 3, "LET a; DFE"⟩) := by
  have hfirst : tokenize "LET a;" = .ok [⟨.identifier, "LET", 0⟩, ⟨.identifier, "a", 4⟩,
      ⟨.operator, ";", 5⟩] := by decide +kernel
  have hsecond : tokenize "DFE" = .ok [⟨.identifier, "DFE", 0⟩] := by decide +kernel
  have h : parse "LET a;" = .ok ⟨[⟨"a", false, none⟩], []⟩ := by
    rw [parse_of_tokenize hfirst]
    rfl
  have h' : parse "DFE" = .error (.reported
      ⟨.syntactic, "expected 'LET' or 'DEF'", 0, 3, "DFE"⟩) := by
    rw [parse_of_tokenize hsecond]
    rfl
  exact (@reading_composes "LET a;" " " _ h (by decide) (by simp [isBlank]) "DFE").2 _ h'

end FrontEnd
