import FrontEnd.Proofs.Prefix.Statement

/-!
# Prefixes of programs

How far the rules for programs look, and how they are completed where they have failed.
-/

namespace FrontEnd.Grammar

open Rule

lemma lookahead_fieldRest {d d' : Nat} (h : d ≤ d') :
    Lookahead (fieldRest d) (fieldRest d') Anything := by
  have hrest : ∀ c n, Lookahead (do
      let v ← initializer (Grammar.expression d)
      let _ ← expect (.text ";") .fieldEnd
      return (⟨n, c, v⟩ : Field)) (do
      let v ← initializer (Grammar.expression d')
      let _ ← expect (.text ";") .fieldEnd
      return (⟨n, c, v⟩ : Field)) Anything :=
    fun c n => lookahead_bind_reads (lookahead_initializer (lookahead_expression h))
      (fun v => lookahead_expect_pure _ _ (⟨n, c, v⟩ : Field) _) fun v => reads_expect_pure _ _ _
  have hreads : ∀ c n, Reads (do
      let v ← initializer (Grammar.expression d)
      let _ ← expect (.text ";") .fieldEnd
      return (⟨n, c, v⟩ : Field)) :=
    fun c n => reads_bind_right (leaves_initializer (leaves_expression d))
      fun v => reads_expect_pure _ _ _
  exact lookahead_bind_reads (lookahead_accept _) (fun c => lookahead_bind_reads
    (lookahead_name _ Anything) (hrest c) (hreads c))
    fun c => reads_bind_left (reads_name _) fun n => (hrest c n).leaves

lemma lookahead_field {d d' : Nat} (h : d ≤ d') : Lookahead (field d) (field d') Anything :=
  lookahead_expect_then _ _ (lookahead_fieldRest h)

lemma lookahead_parameters : Lookahead parameters parameters fun _ U =>
    startsAs [.kind .identifier] U = false ∧
      ∀ t ∈ U.head?, (Pattern.text ",").accepts t = false := by
  have hfinds := finds_behind (.text ",") (leaves_name .parameterName)
  have hitem : Lookahead (behind (.text ",") (name .parameterName))
      (behind (.text ",") (name .parameterName))
      fun _ U => ∀ t ∈ U.head?, (Pattern.text ",").accepts t = false := by
    refine (lookahead_behind (.text ",") (lookahead_name _ Anything)).mono fun o U hU => ?_
    cases o with
    | none => exact hU
    | some n => trivial
  have hmany := lookahead_many hfinds hfinds hitem fun _ _ hU => hU
  have hnames := lookahead_bind_follow
    (F := fun _ U => ∀ t ∈ U.head?, (Pattern.text ",").accepts t = false)
    (lookahead_name .parameterName Anything) (fun first => lookahead_then_pure (first :: ·) hmany
      fun _ _ hU => hU) fun _ _ _ _ => trivial
  have hreads : Reads (name .parameterName >>= fun first =>
      many (behind (.text ",") (name .parameterName)) >>= fun others => pure (first :: others)) :=
    reads_bind_left (reads_name _) fun first => leaves_bind hmany.leaves fun _ => leaves_pure _
  refine lookahead_bind (lookahead_ahead _)
    (fun b => lookahead_if b hnames (lookahead_pure [] _)) ?_
  intro b ts ps rest hps U hU
  cases b with
  | true => exact ⟨hU.2, .inl (hreads ts ps rest hps)⟩
  | false => exact ⟨hU.2, .inr hU.1⟩

lemma lookahead_methodRest {d d' : Nat} (h : d ≤ d') :
    Lookahead (methodRest d) (methodRest d') Anything := by
  have hbody : ∀ n ps, Lookahead
      (body (Grammar.statement d) >>= fun ss => pure (⟨n, ps, ss⟩ : Method))
      (body (Grammar.statement d') >>= fun ss => pure (⟨n, ps, ss⟩ : Method)) Anything :=
    fun n ps => lookahead_then_pure _ (lookahead_body (lookahead_statement h) (reads_statement d)
      (reads_statement d')) fun _ _ _ => trivial
  have htail := fun n ps => lookahead_expect_then (.text ")") .parametersClose
    (lookahead_expect_then (.text "DO") .bodyStart (hbody n ps))
  exact lookahead_bind_reads (lookahead_name _ Anything) (fun n => lookahead_expect_then _ _
    (lookahead_bind_reads lookahead_parameters (htail n)
      fun ps => reads_bind_left (reads_expect _ _) fun _ =>
        leaves_bind (leaves_expect _ _) fun _ => (hbody n ps).leaves))
    fun n => reads_bind_left (reads_expect _ _) fun _ =>
      leaves_bind leaves_parameters fun ps => (htail n ps).leaves

lemma lookahead_method {d d' : Nat} (h : d ≤ d') : Lookahead (method d) (method d') Anything :=
  lookahead_expect_then _ _ (lookahead_methodRest h)

lemma lookahead_definition {d d' : Nat} (h : d ≤ d') :
    Lookahead (definition d) (definition d') fun o U => o = none → U = [] := by
  have hfield := lookahead_then_pure (F := Anything) (fun f => some (Definition.field f))
    (lookahead_field h) fun _ _ _ => trivial
  have hmethod := lookahead_then_pure (F := Anything) (fun m => some (Definition.method m))
    (lookahead_method h) fun _ _ _ => trivial
  have hreads : Reads (field d >>= fun f => pure (some (Definition.field f))) :=
    reads_bind_left (reads_field d) fun _ => leaves_pure _
  have hreads' : Reads (method d >>= fun m => pure (some (Definition.method m))) :=
    reads_bind_left (reads_method d) fun _ => leaves_pure _
  have hread_if : ∀ (b : Bool) {r t : Rule (Option Definition)}, Reads r → Reads t →
      Reads (if b = true then r else t) := by
    intro b r t hr ht
    cases b with
    | true => exact hr
    | false => exact ht
  have hlast := lookahead_bind_reads (F := Anything) (lookahead_ahead (.text "DEF"))
    (fun b => lookahead_if b hmethod (lookahead_fail SyntaxCause.definition _))
    fun b => hread_if b hreads' (reads_fail _)
  have hlast_reads := reads_bind_right (leaves_ahead [.text "DEF"])
    fun b => hread_if b hreads' (reads_fail .definition)
  have hnext := lookahead_bind_reads (F := Anything) (lookahead_ahead (.text "LET"))
    (fun b => lookahead_if b hfield hlast) fun b => hread_if b hreads hlast_reads
  have hnext_reads := reads_bind_right (leaves_ahead [.text "LET"])
    fun b => hread_if b hreads hlast_reads
  refine lookahead_bind (S := fun _ _ _ => True) lookahead_atEnd
    (fun b => lookahead_if b (lookahead_pure none _) hnext) ?_
  intro b ts o rest ho U hU
  cases b with
  | true =>
    injection ho with ho _
    exact ⟨trivial, .inr (by rw [hU ho.symm]; rfl)⟩
  | false => exact ⟨trivial, .inl (hnext_reads ts o rest ho)⟩

/-- A program is followed by nothing. -/
lemma lookahead_program {d d' : Nat} (h : d ≤ d') :
    Lookahead (program d) (program d') fun _ U => U = [] := by
  have hmany := lookahead_many (finds_definition d) (finds_definition d') (lookahead_definition h)
    fun _ _ _ hno => by cases hno
  exact lookahead_then_pure _ hmany fun _ _ hU _ => hU

lemma program_mono {depth depth' : Nat} (h : depth ≤ depth') {ts : List Token} {p : Program}
    (hp : program depth ts = .ok p []) : program depth' ts = .ok p [] := by
  rw [← List.append_nil ts] at hp ⊢
  exact (lookahead_program h).ok hp (Alike.refl ts) (.inr rfl)

lemma program_alike {depth : Nat} {ts us : List Token} {p : Program} (h : Alike ts us)
    (hp : program depth ts = .ok p []) : program depth us = .ok p [] := by
  rw [← List.append_nil ts] at hp
  rw [← List.append_nil us]
  exact (lookahead_program (Nat.le_refl depth)).ok hp h (.inr rfl)

lemma completable_accept (p : Pattern) :
    Completable (accept [p]) (accept [p]) (NotNext p) (NotNext p) where
  fresh := ⟨[], false, allMade_nil, fun _ hU => ⟨hU, accept_of_not hU⟩⟩
  resumed := by
    intro c rest cause _ he
    unfold accept at he
    split at he <;> cases he

lemma completable_fieldRest (d : Nat) :
    Completable (fieldRest d) (fieldRest (d + 1)) (fun _ => True) (fun _ => True) := by
  have hvalue := fun c n =>
    completable_initialized (repairs_expression d) .fieldEnd fun v => (⟨n, c, v⟩ : Field)
  have hvalueLeaves : ∀ c n, Leaves (do
      let v ← initializer (Grammar.expression d)
      let _ ← expect (.text ";") .fieldEnd
      return (⟨n, c, v⟩ : Field)) :=
    fun c n => leaves_bind (leaves_initializer (leaves_expression d)) fun v =>
      leaves_expect_pure _ _ _
  have hname := fun c => completable_bind (S := Next filler) (lookahead_name .fieldName Anything)
    (hvalueLeaves c) (completable_name made_filler rfl .fieldName fun _ => True) (hvalue c)
    (fun _ _ _ => ⟨trivial, trivial⟩) (fun _ hV => hV) (.inl (reads_name _))
  refine completable_bind (lookahead_accept _) (fun c => leaves_bind (leaves_name _)
    (hvalueLeaves c)) (completable_accept _) hname (fun c V hV => ?_) (fun _ _ => trivial)
    (.inr fun _ _ _ => trivial)
  have hno := notNext_of_next "CONST" (t := filler) (by decide) hV
  exact ⟨hno, .inr hno⟩

lemma completable_field (d : Nat) :
    Completable (field d) (field (d + 1)) (fun _ => True) (Next (word "LET")) :=
  completable_keyword_then "LET" (by decide) _ (leaves_fieldRest d) (completable_fieldRest d)

/-- The tokens that may follow the parameters of a method. -/
abbrev AfterParameters (U : List Token) : Prop :=
  startsAs [.kind .identifier] U = false ∧ NotNext (.text ",") U

/-- Parameters after it is known that there is one. -/
lemma completable_names : Completable (do
      let first ← name .parameterName
      let others ← many (behind (.text ",") (name .parameterName))
      return first :: others) (do
      let first ← name .parameterName
      let others ← many (behind (.text ",") (name .parameterName))
      return first :: others) (NotNext (.text ",")) (Next filler) := by
  have hfinds := finds_behind (.text ",") (leaves_name .parameterName)
  have hlook := (lookahead_behind (.text ",") (lookahead_name .parameterName Anything)).mono
    (G := fun _ U => NotNext (.text ",") U) fun o U hU => by
      cases o with
      | none => exact hU
      | some n => trivial
  have hitem := completable_behind (p := .text ",") (leaves_name .parameterName)
    ((completable_name made_filler rfl .parameterName (NotNext (.text ","))).resumed)
    fun _ hU => hU
  have hmany := completable_many hfinds hfinds hlook hitem.resumed
    (fun U hU => behind_of_not _ hU) (fun _ hU => hU) fun _ _ hV => hV
  exact completable_bind (S := Next filler) (lookahead_name .parameterName Anything)
    (fun first => leaves_bind (leaves_many (leaves_behind _ (leaves_name _))) fun _ =>
      leaves_pure _) (completable_name made_filler rfl .parameterName fun _ => True)
    (fun first => completable_then_pure (first :: ·) hmany)
    (fun _ _ _ => ⟨trivial, trivial⟩) (fun _ hV => hV) (.inl (reads_name _))

lemma completable_parameters :
    Completable parameters parameters AfterParameters (fun _ => True) where
  fresh := by
    refine ⟨[], [], allMade_nil, fun U hU => ⟨trivial, ?_⟩⟩
    have hno : ahead [.kind .identifier] U = .ok false U := by
      rw [ahead, hU.1]
    exact bind_of_ok hno _
  resumed := by
    refine resumes_test (tests_ahead (.kind .identifier)) fun b => ?_
    cases b with
    | true =>
      exact completable_names.resumed.mono (fun U hU => hU.2) fun V hV =>
        ⟨startsAs_of_next hV _, trivial⟩
    | false => exact resumes_pure [] _ _ _

lemma completable_methodRest (d : Nat) :
    Completable (methodRest d) (methodRest (d + 1)) (fun _ => True) (fun _ => True) := by
  have hbody := fun n ps => completable_then_pure (fun ss => (⟨n, ps, ss⟩ : Method))
    (completable_body (repairs_statement d))
  have hbodyLeaves : ∀ n ps, Leaves
      (body (Grammar.statement d) >>= fun ss => pure (⟨n, ps, ss⟩ : Method)) :=
    fun n ps => leaves_bind (leaves_body (leaves_statement d)) fun _ => leaves_pure _
  have hstart := fun n ps => completable_keyword_then "DO" (by decide) .bodyStart
    (hbodyLeaves n ps) (hbody n ps)
  have hstartLeaves := fun n ps => leaves_bind (leaves_expect (.text "DO") .bodyStart)
    fun _ => hbodyLeaves n ps
  have hclose := fun n ps => completable_mark_then ")" (by decide)
    .parametersClose (hstartLeaves n ps) (hstart n ps)
  have hcloseLeaves := fun n ps => leaves_bind (leaves_expect (.text ")") .parametersClose)
    fun _ => hstartLeaves n ps
  have hafter : ∀ V, Next (mark ")") V → AfterParameters V := by
    intro V hV
    cases V with
    | nil => cases hV
    | cons t V =>
      cases hV
      exact ⟨rfl, fun u hu => by cases hu; rfl⟩
  have hparameters := fun n => completable_bind (S := fun _ => True) lookahead_parameters
    (hcloseLeaves n) completable_parameters (hclose n)
    (fun _ V hV => ⟨hafter V hV, hafter V hV⟩) (fun _ _ => trivial) (.inr fun _ _ _ => trivial)
  have hparametersLeaves := fun n => leaves_bind leaves_parameters (hcloseLeaves n)
  exact completable_bind (lookahead_name _ Anything) (fun n => leaves_bind (leaves_expect _ _)
    fun _ => hparametersLeaves n) (completable_name made_filler rfl _ fun _ => True)
    (fun n => completable_mark_then "(" (by decide) _ (hparametersLeaves n) (hparameters n))
    (fun _ _ _ => ⟨trivial, trivial⟩) (fun _ _ => trivial) (.inl (reads_name _))

lemma completable_method (d : Nat) :
    Completable (method d) (method (d + 1)) (fun _ => True) (Next (word "DEF")) :=
  completable_keyword_then "DEF" (by decide) _ (leaves_methodRest d) (completable_methodRest d)

/-- What has been read begins as before, and if nothing has, the completion does. -/
lemma head_of_next {c rest V : List Token} {t u : Token} {ts : List Token} {text : String}
    (hts : c ++ rest = t :: ts) (ht : t.text = text) (hu : u.text = text)
    (hV : c = [] → Next u V) : ∃ v vs, c ++ V = v :: vs ∧ v.text = text := by
  cases c with
  | nil =>
    cases V with
    | nil => cases hV rfl
    | cons v V =>
      cases hV rfl
      exact ⟨u, V, rfl, hu⟩
  | cons v c =>
    injection hts with hv _
    exact ⟨v, c ++ V, rfl, by rw [hv, ht]⟩

/-- The program may end in front of a token that begins no definition. -/
lemma resumes_definition (d : Nat) :
    Resumes (definition d) (definition (d + 1)) (fun U => U = []) (fun _ => True) := by
  intro c rest cause hcause he
  cases hts : c ++ rest with
  | nil =>
    rw [hts] at he
    cases he
  | cons t ts =>
    rw [hts, definition_cons, ← hts] at he
    by_cases hl : t.text = "LET"
    · rw [if_pos hl] at he
      obtain ⟨E, o, hE, hrun⟩ := resumes_then_pure (fun f => some (Definition.field f))
        (completable_field d).resumed _ _ _ hcause he
      refine ⟨E, o, hE, fun U hU => ⟨fun _ => trivial, ?_⟩⟩
      obtain ⟨hnext, hrest⟩ := hrun U trivial
      obtain ⟨v, vs, hcons, hv⟩ := head_of_next hts hl rfl hnext
      rw [hcons] at hrest ⊢
      rw [definition_cons, if_pos hv, hrest]
    · rw [if_neg hl] at he
      by_cases hd : t.text = "DEF"
      · rw [if_pos hd] at he
        obtain ⟨E, o, hE, hrun⟩ := resumes_then_pure (fun m => some (Definition.method m))
          (completable_method d).resumed _ _ _ hcause he
        refine ⟨E, o, hE, fun U hU => ⟨fun _ => trivial, ?_⟩⟩
        obtain ⟨hnext, hrest⟩ := hrun U trivial
        obtain ⟨v, vs, hcons, hv⟩ := head_of_next hts hd rfl hnext
        have hvl : v.text ≠ "LET" := by simp [hv]
        rw [hcons] at hrest ⊢
        rw [definition_cons, if_neg hvl, if_pos hv, hrest]
      · rw [if_neg hd] at he
        injection he with _ hread
        obtain rfl := List.append_left_eq_self.mp hread
        exact ⟨[], none, allMade_nil, fun U hU => ⟨fun _ => trivial, by rw [hU]; rfl⟩⟩

lemma completable_program (d : Nat) :
    Completable (program d) (program (d + 1)) (fun U => U = []) (fun _ => True) :=
  completable_then_pure _ (completable_many (finds_definition d) (finds_definition (d + 1))
    (lookahead_definition (Nat.le_succ d)) (resumes_definition d) (fun _ hU => by rw [hU]; rfl)
    (fun _ _ => trivial) fun _ _ _ hno => by cases hno)

end FrontEnd.Grammar
