import DreamMaker.Proofs.Resolution.Pairs

/-!
Chains of links. While the type of a value is known, every link is checked against what the tree declares for it;
from the first link on whose value can be anything, all is searched for when the program runs.
-/

namespace DreamMaker

open List

namespace Term

/-- Nothing is known of the value behind the link. -/
def Link.leaps (link : Link) : Bool :=
  match link.kind with
  | .field _ searched => searched
  | .index _ | .call .. => true

/-- The link does not ask the tree for its name. -/
def Link.isSearched (link : Link) : Bool :=
  match link.kind with
  | .field _ searched | .call _ searched _ => searched
  | .index _ => true

/-- The type of the value that the links lead to from here. -/
def typeBehind? (base : Term) (links : List Link) : Option TypePath :=
  (links.getLast?.map Link.type?).getD base.type?

/-- The value that the links lead to from here can be anything. -/
def fuzzyBehind (base : Term) (links : List Link) : Bool := base.fuzzy || links.any Link.leaps

/-- The tree declares, for this type, what the link names. -/
def Link.Declared (tree : TypeTree) (owner : TypePath) (link : Link) : Prop :=
  match link.kind with
  | .field name _ => ∃ field, tree.field? owner name = some field ∧ link.type? = field.type?
  | .call name _ _ => tree.hasProc owner name
  | .index _ => True

/-- The link is as it has to be on a value of a type that may be known. -/
structure Link.Checked (tree : TypeTree) (type? : Option TypePath) (fuzzy : Bool) (link : Link) : Prop where
  searched : fuzzy → link.isSearched
  declared : link.isSearched = false → ∃ owner, type? = some owner ∧ tree.hasType owner ∧
    link.Declared tree owner

theorem Link.Checked.of_isSearched {type? : Option TypePath} {fuzzy : Bool} {link : Link}
    (searched : link.isSearched) : link.Checked tree type? fuzzy where
  searched _ := searched
  declared plain := nomatch searched.symm.trans plain

end Term

/-- What is known of the value is what base and links say, and each link is checked. -/
structure Walk.Sound (tree : TypeTree) (walk : Walk) : Prop where
  type? : walk.type? = walk.base.typeBehind? walk.links.reverse
  fuzzy : walk.fuzzy = walk.base.fuzzyBehind walk.links.reverse
  unknown : walk.links ≠ [] → walk.fuzzy → walk.type? = none
  checked : ∀ front link behind, walk.links.reverse = front ++ link :: behind →
    link.Checked tree (walk.base.typeBehind? front) (walk.base.fuzzyBehind front)

/-- A walk without links does not stand for the chain that its base is. -/
def Walk.Whole (walk : Walk) : Prop := walk.links = [] → ∀ base links, walk.base.form ≠ .chain base links

namespace Walk

variable {walk : Walk} {span : Span}

theorem Sound.start (base : Term) : (Walk.start base).Sound tree where
  type? := rfl
  fuzzy := (Bool.or_false _).symm
  unknown some := absurd rfl some
  checked front link behind split := by simp [Walk.start] at split

/-- One more link, which is checked against what is known so far. -/
theorem Sound.push (sound : walk.Sound tree) (link : Term.Link) (checked : link.Checked tree walk.type? walk.fuzzy)
    (unknown : walk.fuzzy || link.leaps → link.type? = none) :
    (⟨walk.base, link :: walk.links, link.type?, walk.fuzzy || link.leaps⟩ : Walk).Sound tree where
  type? := by simp [Term.typeBehind?]
  fuzzy := by simp [sound.fuzzy, Term.fuzzyBehind, Bool.or_assoc]
  unknown _ := unknown
  checked front here behind split := by
    rw [reverse_cons] at split
    rcases behind.eq_nil_or_concat with rfl | ⟨middle, _, rfl⟩
    · -- It is the new link itself.
      obtain ⟨rfl, same⟩ := append_inj' split rfl
      rw [← sound.type?, ← sound.fuzzy, ← singleton_inj.1 same]
      exact checked
    · rw [concat_eq_append, ← cons_append, ← append_assoc] at split
      exact sound.checked front here middle (append_inj' split rfl).1

theorem Sound.leap (sound : walk.Sound tree) (leaps : (Term.Link.mk kind safe none span).leaps)
    (checked : (Term.Link.mk kind safe none span).Checked tree walk.type? walk.fuzzy) :
    (walk.leap kind safe span).Sound tree := by
  have pushed := sound.push _ checked fun _ => rfl
  rwa [leaps, Bool.or_true] at pushed

theorem Sound.step (sound : walk.Sound tree) (known : walk.fuzzy = false) (typed : walk.type? = some owner)
    (exists_ : tree.hasType owner)
    (found : tree.field? owner name = some field) :
      (walk.step (.field name false) safe field.type? span).Sound tree := by
  have pushed := sound.push (.mk (.field name false) safe field.type? span)
    ⟨fun fuzzy => absurd (known.symm.trans fuzzy) Bool.false_ne_true, fun _ =>
      ⟨owner, typed, exists_, field, found, rfl⟩⟩
    (by simp [known, Term.Link.leaps, Term.Link.kind])
  simpa [Walk.step, Term.Link.leaps, Term.Link.kind, Term.Link.type?] using pushed

theorem finish_eq_chain (whole : walk.Whole) {base : Term} {links : List Term.Link}
    {type? : Option TypePath} {fuzzy : Bool} (ends : walk.finish span = .mk (.chain base links) type? fuzzy place) :
    walk.links ≠ [] ∧ walk.base = base ∧ walk.links.reverse = links ∧ walk.type? = type? ∧
      walk.fuzzy = fuzzy := by
  unfold finish at ends
  split at ends
  · next none =>
    exact absurd (congrArg Term.form ends) (whole (isEmpty_iff.1 none) base links)
  · next some =>
    cases ends
    exact ⟨fun none => some (isEmpty_iff.2 none), rfl, rfl, rfl, rfl⟩

end Walk

namespace Resolution

variable {after : Array Report}

/-- Following links keeps a walk sound. With a link to follow, it leads away from the base. -/
theorem Follows.sound : Follows context mild walk links last → walk.Sound context.tree →
    (links = [] → walk.Whole) → last.Sound context.tree ∧ last.Whole
  | .done, sound, whole => ⟨sound, whole rfl⟩
  | .search _ there, sound, _ => there.sound (sound.leap rfl (.of_isSearched rfl)) fun _ => nofun
  | .field known typed isType found there, sound, _ =>
    there.sound (sound.step known typed isType found) fun _ => nofun
  | .global _ _ _ _ there, _, _ => there.sound (.start _) fun _ _ _ _ => nofun
  | .index _ there, sound, _ => there.sound (sound.leap rfl (.of_isSearched rfl)) fun _ => nofun
  | .call checked _ _ _ there, sound, _ => by
    refine there.sound (sound.leap rfl ⟨fun fuzzy => ?_, fun plain => (checked plain).2⟩) fun _ => nofun
    by_contra plain
    exact Bool.false_ne_true ((checked (Bool.eq_false_iff.2 plain)).1.symm.trans fuzzy)

theorem Binds.sound {span : Span} (binds : Binds context mild (.mk (.chain base (first :: rest)) span) term) :
    ∃ walk : Walk, walk.finish span = term ∧ walk.Sound context.tree ∧ walk.Whole := by
  cases binds with
  | made makes => cases makes
  | chain _ _ _ follows => exact ⟨_, rfl, follows.sound (.start _) nofun⟩
  | globalField _ roots follows => exact ⟨_, rfl, follows.sound (.start _) fun _ _ _ _ => by cases roots <;> nofun⟩
  | globalCall _ _ _ _ follows => exact ⟨_, rfl, follows.sound (.start _) fun _ _ _ _ same => by cases same⟩

/-! Errors. -/

theorem exists_argumentName : ∃ name? middle, argumentName key? before = (.ok name?, middle) := by
  rcases key? with _ | key
  · exact ⟨_, _, rfl⟩
  rw [argumentName]
  rcases key.literal? with _ | literal
  · exact ⟨_, _, rfl⟩
  · cases literal <;> exact ⟨_, _, rfl⟩

theorem resolveArgs_eq_error : {args : List Argument} → {before : Array Report} →
    resolveArgs context args before = (.error error, after) →
    ∃ arg ∈ args, ∃ reports, (expr context none arg.value reports).1 = .error error
  | [], _, run => by cases run
  | .mk key? value :: rest, before, run => by
    obtain ⟨_, _, named⟩ := exists_argumentName
    rw [resolveArgs, Run.bind_of_ok named] at run
    rcases Run.error_of_bind run with run | ⟨_, _, _, run⟩
    · exact ⟨_, mem_cons_self, _, congrArg Prod.fst run⟩
    rcases Run.error_of_bind run with run | ⟨_, _, _, run⟩
    · obtain ⟨arg, held, failed⟩ := resolveArgs_eq_error run
      exact ⟨arg, mem_cons_of_mem _ held, failed⟩
    · cases run

/-- Where the value can be anything, only the expressions in the links can fail. -/
theorem resolveLinks_eq_error : {links : List Link} → {walk : Walk} → {before : Array Report} → walk.fuzzy →
    resolveLinks context walk links before = (.error error, after) →
    ∃ link ∈ links, ∃ e ∈ link.exprs, ∃ reports, (expr context none e reports).1 = .error error
  | [], _, _, _, run => by cases run
  | .mk (.field name searched) safe span :: rest, walk, _, fuzzy, run => by
    rw [resolveLinks, Context.fieldLink, if_pos (by simp [fuzzy])] at run
    obtain ⟨link, held, failed⟩ := resolveLinks_eq_error rfl run
    exact ⟨link, mem_cons_of_mem _ held, failed⟩
  | .mk (.index index) safe span :: rest, walk, _, fuzzy, run => by
    rcases Run.error_of_bind run with run | ⟨_, _, _, run⟩
    · exact ⟨_, mem_cons_self, index, mem_singleton_self _, _, congrArg Prod.fst run⟩
    · obtain ⟨link, held, failed⟩ := resolveLinks_eq_error rfl run
      exact ⟨link, mem_cons_of_mem _ held, failed⟩
  | .mk (.call name searched args) safe span :: rest, walk, _, fuzzy, run => by
    rw [resolveLinks, Context.callSearched, if_pos (by simp [fuzzy]), pure_bind] at run
    rcases Run.error_of_bind run with run | ⟨_, _, _, run⟩
    · obtain ⟨⟨_, value⟩, held, failed⟩ := resolveArgs_eq_error run
      refine ⟨_, mem_cons_self, value, ?_, failed⟩
      exact mem_flatMap.2 ⟨_, held, mem_append_right _ (mem_singleton_self _)⟩
    · obtain ⟨link, held, failed⟩ := resolveLinks_eq_error rfl run
      exact ⟨link, mem_cons_of_mem _ held, failed⟩

end Resolution

namespace Expr

open Resolution

theorem name?_ne_global {e : Expr} {after : Array Report}
    (run : e.resolve context none before = (.ok term, after)) : e.name? ≠ some "global" := by
  intro isGlobal
  rcases e with ⟨_ | _, span⟩ <;> cases isGlobal
  cases run

/-- Behind a fuzzy base, an index, a call or a link that is searched for, all links are searched for. Any other
link is one that the type before it has. The value is fuzzy if something in the chain makes it so, and has the type
of the last link if not. A chain on a fuzzy base fails only if an expression in its links does. -/
theorem resolve_chain (context : Context) (inferred? : Option TypePath) (base : Expr)
    (first : Link) (rest : List Link) (span : Span) (before : Array Report) :
    (∀ value links type? fuzzy place after,
      ((mk (.chain base (first :: rest)) span).resolve context inferred?).run.run before =
        (.ok (.mk (.chain value links) type? fuzzy place), after) →
      (∀ front link behind, links = front ++ link :: behind →
        link.Checked context.tree (value.typeBehind? front) (value.fuzzyBehind front)) ∧
      fuzzy = value.fuzzyBehind links ∧ type? = if fuzzy then none else value.typeBehind? links) ∧
    ∀ value middle error after, value.fuzzy → (base.resolve context none).run.run before = (.ok value, middle) →
      ((mk (.chain base (first :: rest)) span).resolve context inferred?).run.run before = (.error error, after) →
      ∃ link ∈ first :: rest, ∃ e ∈ link.exprs, ∃ reports,
        ((e.resolve context none).run.run reports).1 = .error error := by
  constructor
  · intro value links type? fuzzy place after run
    have sound := (resolve_binds run (fun _ => True) fun _ _ => trivial).sound
    obtain ⟨_, ends, sound, whole⟩ := sound
    obtain ⟨some, rfl, rfl, rfl, rfl⟩ := Walk.finish_eq_chain whole ends
    refine ⟨sound.checked, sound.fuzzy, ?_⟩
    split
    · next fuzzy => exact sound.unknown some fuzzy
    · exact sound.type?
  · intro value middle error after fuzzy ran run
    change expr context none base before = _ at ran
    change resolveNode context inferred? span (.chain base (first :: rest)) before = _ at run
    rw [resolveNode, if_neg (name?_ne_global ran), Run.bind_of_ok ran] at run
    rcases Run.error_of_bind run with run | ⟨_, _, _, run⟩
    · exact resolveLinks_eq_error fuzzy run
    · cases run

/-- In `src.name` the field is one of the type of `src`. In `pick(null)[foo]` it is `foo` that is unknown. -/
theorem resolve_chain_mob :
    (Term.Link.mk (.field "name" false) false none .unknown).Checked .builtin (some (.absolute ["mob"])) false ∧
    ∃ link ∈ [Link.mk (.index (.ofName "foo" .unknown)) false .unknown], ∃ e ∈ link.exprs, ∃ reports,
      ((e.resolve ⟨.builtin, .absolute ["mob"], none, .everything⟩ none).run.run reports).1 =
        .error ⟨.unknownName "foo", .unknown⟩ := by
  have known := (resolve_chain ⟨.builtin, .absolute ["mob"], none, .everything⟩ none (.ofName "src" .unknown)
    (.mk (.field "name" false) false .unknown) [] .unknown #[]).1 _ _ _ _ _ _ rfl
  have unknown := (resolve_chain ⟨.builtin, .absolute ["mob"], none, .everything⟩ none
    (.mk (.pick [.positional (.null .unknown)]) .unknown) (.mk (.index (.ofName "foo" .unknown)) false .unknown) []
    .unknown #[]).2 _ _ _ _ rfl rfl rfl
  exact ⟨known.1 [] _ [] rfl, unknown⟩

end Expr

end DreamMaker
