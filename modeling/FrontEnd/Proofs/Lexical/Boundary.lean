import FrontEnd.Proofs.Lexical.Concatenation

/-!
# Cutting a source at a token

Where a token of a source starts or stops, the source can be cut in two: each part is a source of
its own, and their tokens are those of the whole. With what holds of sources one behind the other,
lexing is compositional in both directions.
-/

namespace FrontEnd

/-- That a token starts or stops at a place. -/
def IsBoundary (ts : List Token) (p : Int) : Prop := ∃ t ∈ ts, p = t.offset ∨ p = t.stop

namespace Lexed

variable {w cs : List Char} {o : Nat} {ts : List Token}

/-- A text that is cut into tokens is cut in the same way nearer to the start of the source. -/
lemma moved_back (h : Lexed w o cs ts) {m n : Nat} (ho : o = m + n) :
    ∃ us, Lexed w m cs us ∧ ts = us.map (Token.behind n) := by
  induction h generalizing m with
  | nil o => exact ⟨[], .nil m, rfl⟩
  | blank hc _ ih =>
    obtain ⟨us, hus, rfl⟩ := ih (m := m + 1) (by omega)
    exact ⟨us, .blank hc hus, rfl⟩
  | @token o p r kind ts hs he _ ih =>
    obtain ⟨us, hus, rfl⟩ := ih (m := m + p.length) (by omega)
    refine ⟨⟨kind, String.ofList p, m⟩ :: us, .token hs he hus, ?_⟩
    rw [List.map_cons, ho]
    rfl

/-- At a boundary of a token, a text falls into two that are cut into the tokens on its sides. -/
lemma split (h : Lexed w o cs ts) {p : Int} (hp : IsBoundary ts p) :
    ∃ front back us vs, cs = front ++ back ∧ p = (o + front.length : Nat) ∧ ts = us ++ vs ∧
      Lexed (back ++ w) o front us ∧ Lexed w (o + front.length) back vs := by
  induction h with
  | nil o =>
    obtain ⟨t, ht, -⟩ := hp
    cases ht
  | @blank o c r ts hc _ ih =>
    obtain ⟨front, back, us, vs, rfl, hplace, rfl, hus, hvs⟩ := ih hp
    have hlength : o + 1 + front.length = o + (c :: front).length := by
      rw [List.length_cons]
      omega
    rw [hlength] at hplace hvs
    exact ⟨c :: front, back, us, vs, rfl, hplace, rfl, .blank hc hus, hvs⟩
  | @token o q r kind ts hs he h ih =>
    obtain ⟨t, ht, hp⟩ := hp
    rcases List.mem_cons.mp ht with rfl | ht
    · rcases hp with rfl | rfl
      · exact ⟨[], q ++ r, [], _, rfl, rfl, rfl, .nil o, .token hs he h⟩
      · refine ⟨q, r, [_], ts, rfl, ?_, rfl, .single hs he o, h⟩
        simp [Token.stop, Token.length]
    · obtain ⟨front, back, us, vs, rfl, hplace, rfl, hus, hvs⟩ := ih ⟨t, ht, hp⟩
      have hlength : o + q.length + front.length = o + (q ++ front).length := by
        rw [List.length_append]
        omega
      rw [hlength] at hplace hvs
      rw [List.append_assoc] at he
      exact ⟨q ++ front, back, _ :: us, vs, (List.append_assoc ..).symm, hplace, rfl,
        .token hs he hus, hvs⟩

end Lexed

/-- A source is cut into tokens as its parts are: behind an accepted source and blanks, a second
source has the tokens or the error that it has alone, farther behind; and at every boundary of a
token, an accepted source falls into two that have its tokens. -/
theorem tokenize_compositional {source : String} {ts : List Token}
    (h : tokenize source = .ok ts) :
    (∀ blanks second : String, blanks ≠ "" → (∀ b ∈ blanks.toList, isBlank b = true) →
      (∀ us, tokenize second = .ok us → tokenize (source ++ blanks ++ second) =
        .ok (ts ++ us.map (Token.behind (source.length + blanks.length)))) ∧
      ∀ e, tokenize second = .error e → tokenize (source ++ blanks ++ second) =
        .error ⟨e.problem, source.length + blanks.length + e.offset⟩) ∧
    ∀ p, IsBoundary ts p → ∃ front back us vs, source = front ++ back ∧ p = front.length ∧
      tokenize front = .ok us ∧ tokenize back = .ok vs ∧
      ts = us ++ vs.map (Token.behind front.length) := by
  refine ⟨fun blanks second hne hblanks => ⟨fun us hus => tokenize_append h hne hblanks hus,
    fun e he => tokenize_append_error h hne hblanks he⟩, fun p hp => ?_⟩
  obtain ⟨front, back, us, vs, hsource, hplace, rfl, hus, hvs⟩ := (tokenize_eq_ok_iff.mp h).split hp
  -- In front of nothing the last token of the first part ends as it does in front of the second.
  have hfront : Lexed [] 0 front us := hus.behind (by simp)
  obtain ⟨vs, hback, rfl⟩ := hvs.moved_back rfl
  refine ⟨String.ofList front, String.ofList back, us, vs, ?_, ?_, ?_, ?_, ?_⟩
  · rw [← String.ofList_append, ← hsource, String.ofList_toList]
  · simpa using hplace
  · exact tokenize_of_lexed (by rwa [String.toList_ofList])
  · exact tokenize_of_lexed (by rwa [String.toList_ofList])
  · simp

theorem member_of_integer_cut_at_point :
    tokenize ("12.b" ++ " \n" ++ "+0") = .error ⟨.signedZero, 8⟩ ∧
      IsBoundary [⟨.integer, "12", 0⟩, ⟨.operator, ".", 2⟩, ⟨.identifier, "b", 3⟩] 2 ∧
      ∃ front back us vs, "12.b" = front ++ back ∧ (2 : Int) = front.length ∧
        tokenize front = .ok us ∧ tokenize back = .ok vs ∧
        [⟨.integer, "12", 0⟩, ⟨.operator, ".", 2⟩, ⟨.identifier, "b", 3⟩] =
          us ++ vs.map (Token.behind front.length) := by
  have h : tokenize "12.b" = .ok [⟨.integer, "12", 0⟩, ⟨.operator, ".", 2⟩,
      ⟨.identifier, "b", 3⟩] := by decide +kernel
  have he : tokenize "+0" = .error ⟨.signedZero, 2⟩ := by decide +kernel
  have hp : IsBoundary [⟨.integer, "12", 0⟩, ⟨.operator, ".", 2⟩, ⟨.identifier, "b", 3⟩] 2 :=
    ⟨⟨.integer, "12", 0⟩, by simp, .inr rfl⟩
  obtain ⟨hbehind, hcut⟩ := tokenize_compositional h
  exact ⟨(hbehind " \n" "+0" (by decide) (by simp [isBlank])).2 _ he, hp, hcut 2 hp⟩

end FrontEnd
