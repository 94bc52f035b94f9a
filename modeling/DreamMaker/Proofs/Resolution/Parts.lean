import DreamMaker.Proofs.Resolution.Pairs

/-!
What is bound out of expressions of a kind is made of parts of a kind.
-/

namespace DreamMaker

open List

theorem Node.mem_exprs_of_kept {node : Node} (kept : e ∈ node.kept) : e ∈ node.exprs ∨ e = .null .unknown := by
  have values {args : List Argument} (held : e ∈ args.map Argument.value) : e ∈ args.flatMap Argument.exprs := by
    obtain ⟨⟨_, value⟩, member, rfl⟩ := mem_map.1 held
    exact mem_flatMap.2 ⟨_, member, mem_append_right _ mem_cons_self⟩
  have missing {e? : Option Expr} (same : e = e?.getD (.null .unknown)) : e ∈ e?.toList ∨ e = .null .unknown := by
    cases e? with
    | none => exact .inr same
    | some => exact .inl (mem_singleton.2 same)
  cases node with
  | format _ _ =>
    obtain ⟨hole, member, rfl⟩ := mem_map.1 kept
    exact (missing rfl).imp_left fun held => mem_flatMap.2 ⟨hole, member, held⟩
  | new target args => exact .inl ((mem_append.1 kept).elim (mem_append_left _) (mem_append_right _ <| values ·))
  | dynamicCall _ args =>
    exact .inl ((mem_append.1 kept).elim (mem_append_left _ <| values ·) (mem_append_right _ <| values ·))
  | scope base? name call? =>
    cases call? with
    | none => cases kept
    | some args => exact .inl (mem_append_right _ (by simpa using values kept))
  | gather function args => cases function <;> first | exact .inl kept | exact .inl (values kept)
  | call target args => exact .inl (values kept)
  | input args _ _ => exact .inl ((mem_append.1 kept).elim (mem_append_left _ <| values ·) (mem_append_right _))
  | apply function _ => cases function <;> first | exact .inl kept | cases kept
  | log value base? => exact .inl (by simpa [Node.exprs, Node.kept, or_comm] using kept)
  | isType value type? =>
    rcases mem_cons.1 kept with rfl | held
    · exact .inl mem_cons_self
    · exact (missing (mem_singleton.1 held)).imp_left (mem_cons_of_mem _)
  | locate type? _ =>
    rcases mem_cons.1 kept with same | held
    · exact (missing same).imp_left (mem_append_left _)
    · exact .inl (mem_append_right _ held)
  | literal | search | name | result | declare | chain => cases kept
  | unary | binary | assign | ternary | member | between | applyPair | locateAt | pick => exact .inl kept

/-- Whatever is made of expressions of a kind in a context is of a kind. -/
structure Context.Fits (context : Context) (mild : Report → Prop) (allows : Node → Prop)
    (fits : Term.Form → Prop) :
    Prop where
  null : allows (.literal .null)
  makes {node : Node} {form : Term.Form} (makes : Resolution.Makes context mild node form)
    (same : node.kept.length = form.terms.length) (below : ∀ inner ∈ form.terms, fits inner.form) :
    allows node → fits form
  names {name : String} {term : Term} (names : context.Names name term) : term.Each fits
  roots {base : Expr} {name : String} {root : Term} {searched safe : Bool} {span : Span} {links : List Link}
    (isGlobal : base.name? = some "global") (roots : context.Roots name root) :
    allows (.chain base (.mk (.field name searched) safe span :: links)) → fits root.form
  link {base : Expr} {links : List Link} {owner : TypePath} {name : String} {safe : Bool}
    {span : Span} {var : GlobalVar}
    (noField : context.tree.field? owner name = none) (found : context.tree.globalVar? owner name = some var) :
    allows (.chain base links) → .mk (.field name false) safe span ∈ links → fits (.var (.global name var.id))
  chain (base : Term) (links : List Term.Link) : fits (.chain base links)
  globalCall (name : String) (args : List Term.Argument) : fits (.call (.global name) args)
  nullTest (value : Term) : fits (.isNull value) ∧ fits (.unary .not value)

namespace Resolution

variable {context : Context}

/-- Most of what is made is neutral. -/
theorem Makes.isNeutral_or (makes : Makes context mild node form) : form.isNeutral ∨
    (∃ base? name, node = .scope base? name none ∧ context.Scopes base? name form) ∨
      ∃ target place, context.Writes target place ∧
        ((∃ op value, form = .assign op place value) ∨ ∃ op, form = .unary op place) ∧
        place ∈ form.terms := by
  cases makes with
  | scope scopes => exact .inr (.inl ⟨_, _, rfl, scopes⟩)
  | assign writes => exact .inr (.inr ⟨_, _, writes, .inl ⟨_, _, rfl⟩, mem_cons_self⟩)
  | unary writes =>
    rename_i _ _ op
    by_cases mutating : op.isMutating = true
    · exact .inr (.inr ⟨_, _, writes mutating, .inr ⟨_, rfl⟩, mem_cons_self⟩)
    · exact .inl (by simpa [Term.Form.isNeutral] using mutating)
  | _ => exact .inl rfl

theorem mem_zip_of_mem {as : List α} {bs : List β} (same : as.length = bs.length) (member : b ∈ bs) :
    ∃ a, (a, b) ∈ as.zip bs := by
  rw [← map_snd_zip (Nat.le_of_eq same.symm)] at member
  obtain ⟨⟨a, _⟩, held, rfl⟩ := mem_map.1 member
  exact ⟨a, held⟩

/-- A link that is added to a chain brings its own terms. -/
theorem each_link {walk : Walk} (each : Numbered.AllFit fits walk)
    (below : ∀ term ∈ link.terms, term.Each fits) :
    ∀ term ∈ walk.base :: (link :: walk.links).flatMap Term.Link.terms, term.Each fits := by
  intro term member
  rw [mem_cons, flatMap_cons, mem_append] at member
  rcases member with here | added | before
  · exact each term (here ▸ mem_cons_self)
  · exact below term added
  · exact each term (mem_cons_of_mem _ before)

/-- A chain is the term it starts from if there are no links, and else holds what the links hold. -/
theorem each_finish {walk : Walk} (chain : ∀ base links, fits (.chain base links)) (each : Numbered.AllFit fits walk)
    {span : Span} : (walk.finish span).Each fits := by
  unfold Walk.finish
  split
  · exact each _ mem_cons_self
  · refine Term.each_mk.2 ⟨chain _ _, forall_mem_cons.2 ⟨each _ mem_cons_self, fun term within => ?_⟩⟩
    obtain ⟨link, held, inside⟩ := mem_flatMap.1 within
    exact each term (mem_cons_of_mem _ (mem_flatMap.2 ⟨link, mem_reverse.1 held, inside⟩))

theorem each_values {args : List Argument} {args' : List Term.Argument} (same : args.length = args'.length)
    (below : ∀ {e : Expr} {term : Term},
      (e, term) ∈ (args.map Argument.value).zip (args'.map Term.Argument.value) →
      e.Each allows → term.Each fits) (each : ∀ e ∈ args.flatMap Argument.exprs, e.Each allows) :
    ∀ term ∈ args'.map Term.Argument.value, term.Each fits := by
  intro term member
  obtain ⟨e, pair⟩ : ∃ e, (e, term) ∈ (args.map Argument.value).zip (args'.map Term.Argument.value) :=
    mem_zip_of_mem (by simpa using same) member
  obtain ⟨⟨_, _⟩, held, rfl⟩ := mem_map.1 (of_mem_zip pair).1
  exact below pair (each _ (mem_flatMap.2 ⟨_, held, mem_append_right _ mem_cons_self⟩))

theorem each_nullTest (laws : context.Fits mild allows fits) (each : value.Each fits) {op : BinaryOp}
    {span : Span} : (nullTest op value span).Each fits := by
  have test : (Term.plain (.isNull value) span).Each fits :=
    Term.each_mk.2 ⟨(laws.nullTest value).1, forall_mem_singleton.2 each⟩
  unfold nullTest
  split
  · exact test
  · exact Term.each_mk.2 ⟨(laws.nullTest _).2, forall_mem_singleton.2 test⟩

theorem each_root (roots : context.Roots name root) (here : fits root.form) : root.Each fits := by
  cases roots <;> exact Term.each_mk.2 ⟨here, nofun⟩

-- By recursion on how terms are bound: the parts right below fit, and what is made of them fits with them.
mutual

theorem Binds.each (laws : context.Fits mild allows fits) :
    Binds context mild e term → e.Each allows → term.Each fits
  | .made makes same below, each => by
    rename_i node form _ _ _ _
    have inside : ∀ inner ∈ form.terms, inner.Each fits := by
      intro inner member
      obtain ⟨e, pair⟩ := mem_zip_of_mem same member
      refine Binds.each laws (below pair) ?_
      rcases node.mem_exprs_of_kept (of_mem_zip pair).1 with held | rfl
      · exact each.below e held
      · exact Expr.Each.intro laws.null nofun
    exact Term.each_mk.2
      ⟨laws.makes makes same (fun inner member => inside inner member _ (.self _)) each.here, inside⟩
  | .name names, _ => laws.names names
  | .declare names, _ => laws.names names
  | .unchanged below _, each => Binds.each laws below (each.below _ mem_cons_self)
  | .unassigned below _, each => Binds.each laws below (each.below _ (mem_cons_of_mem _ mem_cons_self))
  | .nullLeft _ below, each =>
    each_nullTest laws (Binds.each laws below (each.below _ (mem_cons_of_mem _ mem_cons_self)))
  | .nullRight _ below, each => each_nullTest laws (Binds.each laws below (each.below _ mem_cons_self))
  | .chain _ _ first second, each =>
    each_finish laws.chain (Follows.each laws second
      (forall_mem_singleton.2 (Binds.each laws first (each.below _ mem_cons_self)))
      (fun e held => each.below e (mem_cons_of_mem _ held)) fun held noField found =>
        laws.link noField found each.here held)
  | .globalField isGlobal roots below, each =>
    each_finish laws.chain (Follows.each laws below
      (forall_mem_singleton.2 (each_root roots (laws.roots isGlobal roots each.here)))
      (fun e held => each.below e (mem_cons_of_mem _ held))
      fun held noField found => laws.link noField found each.here (mem_cons_of_mem _ held))
  | .globalCall isGlobal _ same first second, each =>
    each_finish laws.chain (Follows.each laws second
      (forall_mem_singleton.2 (Term.each_mk.2 ⟨laws.globalCall _ _,
        each_values same (fun pair => Binds.each laws (first pair))
        fun e held => each.below e (mem_cons_of_mem _ (mem_append_left _ held))⟩))
      (fun e held => each.below e (mem_cons_of_mem _ (mem_append_right _ held)))
      fun held noField found => laws.link noField found each.here (mem_cons_of_mem _ held))

theorem Follows.each (laws : context.Fits mild allows fits) : Follows context mild walk links last →
    Numbered.AllFit fits walk → (∀ e ∈ links.flatMap Link.exprs, e.Each allows) →
    (∀ {name safe span owner var}, .mk (.field name false) safe span ∈ links →
      context.tree.field? owner name = none →
      context.tree.globalVar? owner name = some var → fits (.var (.global name var.id))) →
    Numbered.AllFit fits last
  | .done, walked, _, _ => walked
  | .search _ there, walked, each, reach =>
    Follows.each laws there (each_link walked nofun) each fun held => reach (mem_cons_of_mem _ held)
  | .field _ _ _ _ there, walked, each, reach =>
    Follows.each laws there (each_link walked nofun) each fun held => reach (mem_cons_of_mem _ held)
  | .global _ _ noField found there, _, each, reach =>
    Follows.each laws there
      (forall_mem_singleton.2 (Term.each_mk.2 ⟨reach mem_cons_self noField found, nofun⟩)) each
      fun held => reach (mem_cons_of_mem _ held)
  | .index here there, walked, each, reach =>
    Follows.each laws there (each_link walked
      (forall_mem_singleton.2 (Binds.each laws here (each _ mem_cons_self))))
      (fun e held => each e (mem_cons_of_mem _ held)) fun held => reach (mem_cons_of_mem _ held)
  | .call _ _ same here there, walked, each, reach =>
    Follows.each laws there (each_link walked
      (each_values same (fun pair => Binds.each laws (here pair)) fun e held => each e (mem_append_left _ held)))
      (fun e held => each e (mem_append_right _ held)) fun held => reach (mem_cons_of_mem _ held)

end

end Resolution

end DreamMaker
