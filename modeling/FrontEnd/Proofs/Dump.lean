import FrontEnd.Proofs.Dump.Source
import FrontEnd.Proofs.Grammar.Acceptance

/-!
# Dumps are unambiguous

The dumps of two sources that are accepted have the same text only if both are read as the same
program: the text tells the rows, these the outline, this the untyped tree, and this the program.
-/

namespace FrontEnd

lemma wellSpelled_of_parse {source : String} {p : Program} (h : parse source = .ok p) :
    p.tree.WellSpelled := by
  obtain ⟨error, -, herror⟩ | ⟨ts, hts, ⟨q, hq, hparse⟩ | ⟨problem, rest, -, herror⟩⟩ :=
    parse_cases source
  · rw [h] at herror
    cases herror
  · rw [h] at hparse
    cases hparse
    have hg := genuine_of_tokenize hts
    obtain ⟨-, hr, hd⟩ := derives_of_program hg hq
    exact wellSpelled_of_derives hd fun t ht => ⟨hg t ht, hr t ht⟩
  · rw [h] at herror
    cases herror

/-- The dump of a program read from a source is complete. -/
lemma dump_of_parse {source : String} {p : Program} (h : parse source = .ok p) :
    p.tree.dump = ⟨p.tree.outline.rows 0, none⟩ :=
  Outline.listing_plain p.tree.outline (Tree.plain_outline p.tree (wellSpelled_of_parse h)) 0

/-- Programs read from sources are the same if their dumps have the same text. -/
lemma eq_of_dump_text {source other : String} {p q : Program} (hp : parse source = .ok p)
    (hq : parse other = .ok q) (h : p.tree.dump.text = q.tree.dump.text) : p = q := by
  have hps := wellSpelled_of_parse hp
  have hqs := wellSpelled_of_parse hq
  have houtline : p.tree.outline = q.tree.outline :=
    Outline.text_listing_injective (Tree.plain_outline p.tree hps) (Tree.plain_outline q.tree hqs) h
  exact Program.tree_injective (Tree.outline_injective p.tree q.tree hps hqs houtline)

/-- The dump of a source that is accepted is complete, and two of them have the same text if and
only if the sources are read as the same program. -/
theorem dump_unambiguous {source other : String} {p q : Program} (hp : parse source = .ok p)
    (hq : parse other = .ok q) :
    p.tree.dump.stop = none ∧ (p.tree.dump.text = q.tree.dump.text ↔ p = q) := by
  constructor
  · rw [dump_of_parse hp]
  · exact ⟨eq_of_dump_text hp hq, fun h => by rw [h]⟩

theorem dump_tells_receiver_from_argument :
    parse "LET x = a.f();" =
      .ok ⟨[⟨"x", false, some (.methodCall (.name "a") "f" [])⟩], []⟩ ∧
    parse "LET x = f(a);" = .ok ⟨[⟨"x", false, some (.call "f" [.name "a"])⟩], []⟩ ∧
    (Program.mk [⟨"x", false, some (.methodCall (.name "a") "f" [])⟩] []).tree.dump.text ≠
      (Program.mk [⟨"x", false, some (.call "f" [.name "a"])⟩] []).tree.dump.text := by
  have hreceiver : tokenize "LET x = a.f();" = .ok [⟨.identifier, "LET", 0⟩,
      ⟨.identifier, "x", 4⟩, ⟨.operator, "=", 6⟩, ⟨.identifier, "a", 8⟩, ⟨.operator, ".", 9⟩,
      ⟨.identifier, "f", 10⟩, ⟨.operator, "(", 11⟩, ⟨.operator, ")", 12⟩,
      ⟨.operator, ";", 13⟩] := by decide +kernel
  have hargument : tokenize "LET x = f(a);" = .ok [⟨.identifier, "LET", 0⟩,
      ⟨.identifier, "x", 4⟩, ⟨.operator, "=", 6⟩, ⟨.identifier, "f", 8⟩, ⟨.operator, "(", 9⟩,
      ⟨.identifier, "a", 10⟩, ⟨.operator, ")", 11⟩, ⟨.operator, ";", 12⟩] := by decide +kernel
  have hp : parse "LET x = a.f();" =
      .ok ⟨[⟨"x", false, some (.methodCall (.name "a") "f" [])⟩], []⟩ := by
    rw [parse_of_tokenize hreceiver]
    rfl
  have hq : parse "LET x = f(a);" = .ok ⟨[⟨"x", false, some (.call "f" [.name "a"])⟩], []⟩ := by
    rw [parse_of_tokenize hargument]
    rfl
  exact ⟨hp, hq, fun h => nomatch (dump_unambiguous hp hq).2.mp h⟩

end FrontEnd
