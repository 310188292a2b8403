import FrontEnd.Reading
import FrontEnd.Proofs.Printing.Constant
import FrontEnd.Proofs.Prefix.Program

/-!
# Printed programs are parsed back

The tokens of a printable tree derive it in the grammar, so the text of a printable program is
parsed as that program.
-/

namespace FrontEnd

open Grammar

@[simp] lemma usable_keyword {s : String} (h : s ∈ keywords) : (word s).Usable :=
  ⟨spells_keyword h, nofun⟩

@[simp] lemma usable_mark {s : String} (h : s ∈ marks) : (mark s).Usable := ⟨spells_mark h, nofun⟩

@[simp] lemma usable_symbol (o : Operator) : (mark o.symbol).Usable := ⟨spells_symbol o, nofun⟩

lemma usable_name {s : String} (h : IsPlainName s) : (word s).Usable := ⟨h.1, nofun⟩

lemma IsPlainName.isName {s : String} (h : IsPlainName s) : IsName (· ∉ keywords) (word s) :=
  ⟨rfl, h.2⟩

/-- Tokens that can be read and that derive a tree. -/
abbrev Writes (n : Nonterminal) (ts : List Token) (tree : n.Tree) : Prop :=
  Sound ts ∧ Reserved n ts tree

lemma Expression.rank_le (e : Expression) : e.rank ≤ 4 := by
  cases e with
  | binary o l r => exact Nat.le_of_lt o.level_lt
  | _ => exact Nat.le_refl 4

/-- That the tokens of an expression are usable and derive it at its level. -/
structure Written (e : Expression) : Prop where
  sound : Sound e.tokens
  level : Reserved (.level e.rank) e.tokens e
  secondary : e.rank = 4 → Reserved .secondary e.tokens e

lemma Written.of_secondary {e : Expression} (hr : e.rank = 4) (hs : Sound e.tokens)
    (h : Reserved .secondary e.tokens e) : Written e where
  sound := hs
  level := by
    rw [hr]
    exact .secondary h
  secondary _ := h

lemma Written.derives {e : Expression} (h : Written e) : Reserved .expression e.tokens e :=
  .expression (derives_lower (Nat.zero_le _) e.rank_le h.level)

mutual

theorem written_expression : (e : Expression) → e.Printable → Written e
  | .literal v, h => by
    obtain ⟨hu, hd⟩ := usable_token h
    exact .of_secondary rfl (sound_cons.mpr ⟨hu, sound_nil⟩) (.primary (.constant hd))
  | .group e, h => by
    have he := written_expression e h
    refine .of_secondary rfl ?_ (.primary (.group rfl he.derives rfl))
    simp (disch := decide) [he.sound]
  | .name s, h =>
    .of_secondary rfl (sound_cons.mpr ⟨usable_name h, sound_nil⟩) (.primary (.name h.isName))
  | .member r s, ⟨hr, hrank, hs⟩ => by
    have hr := written_expression r hr
    refine .of_secondary rfl ?_ (.member (hr.secondary hrank) rfl hs.isName)
    simp (disch := decide) [hr.sound, usable_name hs]
  | .call s es, ⟨hs, hes⟩ => by
    obtain ⟨hsound, hactuals⟩ := written_actuals es hes
    refine .of_secondary rfl ?_ (.primary (.call hs.isName hactuals))
    exact sound_cons.mpr ⟨usable_name hs, hsound⟩
  | .methodCall r s es, ⟨hr, hrank, hs, hes⟩ => by
    have hr := written_expression r hr
    obtain ⟨hsound, hactuals⟩ := written_actuals es hes
    refine .of_secondary rfl ?_ (.methodCall (hr.secondary hrank) rfl hs.isName hactuals)
    rw [Expression.tokens, sound_append, sound_cons, sound_cons]
    exact ⟨hr.sound, usable_mark (by decide), usable_name hs, hsound⟩
  | .binary o l r, ⟨hl, hr, hleft, hright⟩ => by
    have hl := written_expression l hl
    have hr := written_expression r hr
    refine ⟨?_, ?_, fun hrank => absurd hrank (Nat.ne_of_lt o.level_lt)⟩
    · rw [Expression.tokens, sound_append, sound_cons]
      exact ⟨hl.sound, usable_symbol o, hr.sound⟩
    · exact .binary (derives_lower hleft l.rank_le hl.level) rfl rfl
        (derives_lower hright r.rank_le hr.level)

theorem written_actuals : (es : List Expression) → Expression.AllPrintable es →
    Writes .actuals (mark "(" :: (Expression.argumentTokens es ++ [mark ")"])) es
  | [], _ => by
    refine ⟨?_, .noActuals rfl rfl⟩
    simp (disch := decide)
  | e :: es, ⟨he, hes⟩ => by
    have he := written_expression e he
    obtain ⟨hsound, hmore⟩ := written_moreArguments es hes
    refine ⟨?_, .actuals rfl (.arguments he.derives hmore) rfl⟩
    simp (disch := decide) [he.sound, hsound]

theorem written_moreArguments : (es : List Expression) → Expression.AllPrintable es →
    Writes .moreArguments (Expression.moreArgumentTokens es) es
  | [], _ => ⟨sound_nil, .lastArgument⟩
  | e :: es, ⟨he, hes⟩ => by
    have he := written_expression e he
    obtain ⟨hsound, hmore⟩ := written_moreArguments es hes
    refine ⟨?_, .moreArguments rfl he.derives hmore⟩
    rw [Expression.moreArgumentTokens, sound_cons, sound_append]
    exact ⟨usable_mark (by decide), he.sound, hsound⟩

end

lemma written_initializer {o : Option Expression} (h : InitializerPrintable o) :
    Writes .initializer (initializerTokens o) o := by
  cases o with
  | none => exact ⟨sound_nil, .noInitializer⟩
  | some e =>
    have he := written_expression e (h e rfl)
    exact ⟨sound_cons.mpr ⟨usable_mark (by decide), he.sound⟩, .initializer rfl he.derives⟩

lemma written_binding {o : Option Binding} (h : BindingPrintable o) :
    Writes .binding (bindingTokens o) o := by
  cases o with
  | none => exact ⟨sound_nil, .noBinding⟩
  | some b =>
    obtain ⟨hs, hv⟩ := h b rfl
    have hv := written_expression b.value hv
    refine ⟨?_, .binding hs.isName rfl hv.derives⟩
    exact sound_cons.mpr ⟨usable_name hs, sound_cons.mpr ⟨usable_mark (by decide), hv.sound⟩⟩

mutual

theorem written_statement : (s : Statement) → s.Printable → Writes .statement s.tokens s
  | .expression e, h => by
    have he := written_expression e h
    refine ⟨?_, .effect he.derives rfl⟩
    simp (disch := decide) [he.sound]
  | .declaration s v, ⟨hs, hv⟩ => by
    obtain ⟨hsound, hv⟩ := written_initializer hv
    refine ⟨?_, .declaration rfl hs.isName hv rfl⟩
    simp (disch := decide) [usable_name hs, hsound]
  | .assignment e v, ⟨he, hv⟩ => by
    have he := written_expression e he
    have hv := written_expression v hv
    refine ⟨?_, .assignment he.derives rfl hv.derives rfl⟩
    simp (disch := decide) [he.sound, hv.sound]
  | .branch c yes no, ⟨hc, hyes, hno⟩ => by
    have hc := written_expression c hc
    obtain ⟨hsound, hyes⟩ := written_block yes hyes
    obtain ⟨hsound', hno⟩ := written_else no hno
    refine ⟨?_, .branch rfl hc.derives rfl hyes hno rfl⟩
    simp (disch := decide) [hc.sound, hsound, hsound']
  | .forLoop i c j ss, ⟨hi, hc, hj, hss⟩ => by
    have hc := written_expression c hc
    obtain ⟨hsound, hi⟩ := written_binding hi
    obtain ⟨hsound', hj⟩ := written_binding hj
    obtain ⟨hsound'', hss⟩ := written_block ss hss
    refine ⟨?_, .forLoop rfl rfl hi rfl hc.derives rfl hj rfl hss rfl⟩
    simp (disch := decide) [hc.sound, hsound, hsound', hsound'']
  | .whileLoop c ss, ⟨hc, hss⟩ => by
    have hc := written_expression c hc
    obtain ⟨hsound, hss⟩ := written_block ss hss
    refine ⟨?_, .whileLoop rfl hc.derives rfl hss rfl⟩
    simp (disch := decide) [hc.sound, hsound]
  | .exit none, _ => by
    refine ⟨?_, .exit rfl rfl⟩
    simp (disch := decide)
  | .exit (some e), h => by
    have he := written_expression e (h e rfl)
    refine ⟨?_, .exitValue rfl he.derives rfl⟩
    simp (disch := decide) [he.sound]

theorem written_block : (ss : List Statement) → Statement.AllPrintable ss →
    Writes .statements (Statement.blockTokens ss) ss
  | [], _ => ⟨sound_nil, .noStatement⟩
  | s :: ss, ⟨hs, hss⟩ => by
    obtain ⟨hsound, hs⟩ := written_statement s hs
    obtain ⟨hsound', hss⟩ := written_block ss hss
    exact ⟨sound_append.mpr ⟨hsound, hsound'⟩, .statements hs hss⟩

theorem written_else : (ss : List Statement) → Statement.AllPrintable ss →
    Writes .elsePart (Statement.elseTokens ss) ss
  | [], _ => ⟨sound_nil, .noElse⟩
  | s :: ss, ⟨hs, hss⟩ => by
    obtain ⟨hsound, hs⟩ := written_statement s hs
    obtain ⟨hsound', hss⟩ := written_block ss hss
    refine ⟨?_, .elsePart rfl (.statements hs hss)⟩
    exact sound_cons.mpr ⟨usable_keyword (by decide), sound_append.mpr ⟨hsound, hsound'⟩⟩

end

lemma written_field {f : Field} (h : f.Printable) : Writes .field f.tokens f := by
  obtain ⟨s, constant, v⟩ := f
  obtain ⟨hs, hv⟩ := h
  obtain ⟨hsound, hv⟩ := written_initializer hv
  cases constant with
  | false =>
    refine ⟨?_, .field rfl hs.isName hv rfl⟩
    simp (disch := decide) [usable_name hs, hsound]
  | true =>
    refine ⟨?_, .constantField rfl rfl hs.isName hv rfl⟩
    simp (disch := decide) [usable_name hs, hsound]

lemma written_moreNames {ss : List String} (h : ∀ s ∈ ss, IsPlainName s) :
    Writes .moreNames (moreNameTokens ss) ss := by
  induction ss with
  | nil => exact ⟨sound_nil, .lastName⟩
  | cons s ss ih =>
    obtain ⟨hs, hss⟩ := List.forall_mem_cons.mp h
    obtain ⟨hsound, hmore⟩ := ih hss
    refine ⟨?_, .moreNames rfl hs.isName hmore⟩
    exact sound_cons.mpr ⟨usable_mark (by decide), sound_cons.mpr ⟨usable_name hs, hsound⟩⟩

lemma written_names {ss : List String} (h : ∀ s ∈ ss, IsPlainName s) :
    Writes .names (nameTokens ss) ss := by
  cases ss with
  | nil => exact ⟨sound_nil, .noName⟩
  | cons s ss =>
    obtain ⟨hs, hss⟩ := List.forall_mem_cons.mp h
    obtain ⟨hsound, hmore⟩ := written_moreNames hss
    exact ⟨sound_cons.mpr ⟨usable_name hs, hsound⟩, .names hs.isName hmore⟩

lemma written_method {m : Method} (h : m.Printable) : Writes .method m.tokens m := by
  obtain ⟨s, ps, ss⟩ := m
  obtain ⟨hs, hps, hss⟩ := h
  obtain ⟨hsound, hps⟩ := written_names hps
  obtain ⟨hsound', hss⟩ := written_block ss hss
  refine ⟨?_, .method rfl hs.isName rfl hps rfl rfl hss rfl⟩
  simp (disch := decide) [usable_name hs, hsound, hsound']

lemma written_methods {ms : List Method} (h : ∀ m ∈ ms, m.Printable) :
    Writes .source (ms.map Method.tokens).flatten ⟨[], ms⟩ := by
  induction ms with
  | nil => exact ⟨sound_nil, .noDefinition⟩
  | cons m ms ih =>
    obtain ⟨hm, hms⟩ := List.forall_mem_cons.mp h
    obtain ⟨hsound, hm⟩ := written_method hm
    obtain ⟨hsound', hms⟩ := ih hms
    exact ⟨sound_append.mpr ⟨hsound, hsound'⟩, .sourceMethod hm hms⟩

lemma written_fields {fs : List Field} {ms : List Method} {xs : List Token}
    (h : ∀ f ∈ fs, f.Printable) (hms : Writes .source xs ⟨[], ms⟩) :
    Writes .source ((fs.map Field.tokens).flatten ++ xs) ⟨fs, ms⟩ := by
  induction fs with
  | nil => exact hms
  | cons f fs ih =>
    obtain ⟨hf, hfs⟩ := List.forall_mem_cons.mp h
    obtain ⟨hsound, hf⟩ := written_field hf
    obtain ⟨hsound', hfs⟩ := ih hfs
    rw [List.map_cons, List.flatten_cons, List.append_assoc]
    exact ⟨sound_append.mpr ⟨hsound, hsound'⟩, .sourceField hf hfs⟩

theorem written_program {p : Program} (h : p.Printable) : Writes .source p.tokens p := by
  obtain ⟨hfs, hms⟩ := h
  exact written_fields hfs (written_methods hms)

/-- The text of a printable program that is not nested too deeply is parsed as that program. -/
theorem parse_print {p : Program} (h : p.Printable) (hd : p.nesting ≤ maxNesting) :
    parse p.print = .ok p := by
  obtain ⟨hsound, hderives⟩ := written_program h
  have htokens : tokenize p.print = .ok (placed 0 p.tokens) :=
    tokenize_spaced fun t ht => (hsound t ht).1
  have hprogram : program maxNesting (placed 0 p.tokens) = .ok p [] :=
    program_alike (alike_placed 0 p.tokens) (program_of_derives hderives hsound hd)
  simp [parse, readSource, tokensOf, htokens, readTokens, hprogram, bind, Except.bind, pure,
    Except.pure]

theorem parse_difference_of_negatives :
    parse "LET a-b = -0.05 - -3 ;" = .ok ⟨[⟨"a-b", false, some (.binary .subtract
      (.literal (.decimal ⟨true, .finite 5 (-2)⟩)) (.literal (.integer (-3))))⟩], []⟩ := by
  have hname : IsPlainName "a-b" := ⟨spells_of_token rfl, by decide⟩
  have hleft : Expression.Printable (.literal (.decimal ⟨true, .finite 5 (-2)⟩)) :=
    ⟨5, -2, rfl, by decide⟩
  have hright : Expression.Printable (.literal (.integer (-3))) := by
    show (Nat.toDigits 10 3).length ≤ maxIntegerDigits
    decide
  have hfield : Field.Printable ⟨"a-b", false, some (.binary .subtract
      (.literal (.decimal ⟨true, .finite 5 (-2)⟩)) (.literal (.integer (-3))))⟩ := by
    refine ⟨hname, ?_⟩
    rintro e ⟨⟩
    exact ⟨hleft, hright, by decide, by decide⟩
  have hprogram := parse_print (p := ⟨[_], []⟩) ⟨List.forall_mem_singleton.mpr hfield, nofun⟩
    (by decide)
  exact hprogram

end FrontEnd
