import SchemaCatalog.Proofs.Catalog.Action

/-!
What an action leaves when it succeeds and what it leaves when it fails, put together from what its
steps leave.
-/

namespace SchemaCatalog.Action

variable {σ α β : Type}

/-! ### One step after another -/

section Sequence

variable {x : Action σ α} {k : α → Action σ β} {f g : Federation σ}

theorem bind_of_ok {a : α} (h : x f = some (.ok a, g)) : (x >>= k) f = k a g := by
  show (x f).bind _ = _
  rw [h]
  rfl

theorem bind_of_error {e : CatalogError} (h : x f = some (.error e, g)) :
    (x >>= k) f = some (.error e, g) := by
  show (x f).bind _ = _
  rw [h]
  rfl

theorem resolve_of_found {name : String} {n : Node} (found : f.catalog.byName? name = some n) :
    (Command.resolve name : Action σ NodeId) f = some (.ok n.id, f) := by
  have asked : (Action.catalog : Action σ Catalog) f = some (.ok f.catalog, f) := rfl
  rw [Command.resolve, bind_of_ok asked, found]
  rfl

theorem resolve_of_missing {name : String} (missing : f.catalog.byName? name = none) :
    (Command.resolve name : Action σ NodeId) f =
      some (.error (.schemaNotFound (Text.lowercase name)), f) := by
  have asked : (Action.catalog : Action σ Catalog) f = some (.ok f.catalog, f) := rfl
  rw [Command.resolve, bind_of_ok asked, missing]
  rfl

end Sequence

/-! ### What is left -/

/-- From where `pre` holds, an action that succeeds comes to where `post` holds for its answer, and
one that fails to where `failed` holds. -/
structure Leaves (pre : Catalog → Prop) (act : Action σ α) (post : α → Catalog → Prop)
    (failed : Catalog → Prop) : Prop where
  holds : ∀ {f f' a}, pre f.catalog → act f = some (.ok a, f') → post a f'.catalog
  fails : ∀ {f f' e}, pre f.catalog → act f = some (.error e, f') → failed f'.catalog

namespace Leaves

variable {pre failed : Catalog → Prop} {post : α → Catalog → Prop} {last : β → Catalog → Prop}

theorem always {act : Action σ α} {kept : Catalog → Prop} (h : Leaves pre act post failed)
    (done : ∀ a c, post a c → kept c) (undone : ∀ c, failed c → kept c) {f f' : Federation σ}
    {r : Except CatalogError α} (hpre : pre f.catalog) (hact : act f = some (r, f')) :
    kept f'.catalog := by
  cases r with
  | ok a => exact done a _ (h.holds hpre hact)
  | error e => exact undone _ (h.fails hpre hact)

theorem pure {a : α} (h : ∀ c, pre c → post a c) :
    Leaves pre (Pure.pure a : Action σ α) post failed where
  holds hpre hact := by
    cases hact
    exact h _ hpre
  fails _ hact := by cases hact

theorem throw (e : CatalogError) (h : ∀ c, pre c → failed c) :
    Leaves pre (MonadExcept.throw e : Action σ α) post failed where
  holds _ hact := by cases hact
  fails hpre hact := by
    cases hact
    exact h _ hpre

theorem bind {x : Action σ α} {k : α → Action σ β} (hx : Leaves pre x post failed)
    (hk : ∀ a, Leaves (post a) (k a) last failed) : Leaves pre (x >>= k) last failed where
  holds {f f' b} hpre hact := by
    obtain ⟨⟨answer, g⟩, hanswer, hact⟩ := Option.bind_eq_some_iff.mp hact
    cases answer with
    | ok a => exact (hk a).holds (hx.holds hpre hanswer) hact
    | error e => cases hact
  fails {f f' e} hpre hact := by
    obtain ⟨⟨answer, g⟩, hanswer, hact⟩ := Option.bind_eq_some_iff.mp hact
    cases answer with
    | ok a => exact (hk a).fails (hx.holds hpre hanswer) hact
    | error e =>
        cases hact
        exact hx.fails hpre hanswer

theorem mono {x : Action σ α} {pre' : Catalog → Prop} {post' : α → Catalog → Prop}
    (h : Leaves pre x post failed) (stronger : ∀ c, pre' c → pre c)
    (weaker : ∀ a c, post a c → post' a c) : Leaves pre' x post' failed where
  holds hpre hact := weaker _ _ (h.holds (stronger _ hpre) hact)
  fails hpre hact := h.fails (stronger _ hpre) hact

/-- What does not depend on the catalog may be assumed beforehand. -/
theorem given {x : Action σ α} {fact : Prop} (h : fact → Leaves pre x post failed) :
    Leaves (fun c => pre c ∧ fact) x post failed where
  holds hpre hact := (h hpre.2).holds hpre.1 hact
  fails hpre hact := (h hpre.2).fails hpre.1 hact

theorem map {x : Action σ α} {g : α → β} (h : Leaves pre x (fun a => last (g a)) failed) :
    Leaves pre (g <$> x) last failed := by
  rw [map_eq_pure_bind]
  exact h.bind fun a => .pure fun _ => id

theorem ofCatalog {step : Catalog → Except CatalogError α × Catalog}
    (holds : ∀ c a, pre c → (step c).1 = .ok a → post a (step c).2)
    (fails : ∀ c e, pre c → (step c).1 = .error e → failed (step c).2) :
    Leaves pre (Action.ofCatalog step : Action σ α) post failed where
  holds {f f' a} hpre hact := by
    have heq := Option.some.inj hact
    have hcatalog := congrArg (fun p => p.2.catalog) heq
    exact hcatalog ▸ holds f.catalog a hpre (congrArg Prod.fst heq)
  fails {f f' e} hpre hact := by
    have heq := Option.some.inj hact
    have hcatalog := congrArg (fun p => p.2.catalog) heq
    exact hcatalog ▸ fails f.catalog e hpre (congrArg Prod.fst heq)

theorem ofChange {answer : Catalog → α} {change : Catalog → Catalog}
    (h : ∀ c, pre c → post (answer c) (change c)) :
    Leaves pre (Action.ofCatalog fun c => (.ok (answer c), change c) : Action σ α) post failed where
  holds hpre hact := by
    cases hact
    exact h _ hpre
  fails _ hact := by cases hact

theorem log {level : Level} {message : String} {kept : Catalog → Prop}
    (h : ∀ c, pre c → kept (c.log level message)) :
    Leaves pre (Action.log level message : Action σ Unit) (fun _ => kept) failed :=
  ofChange h

theorem ofSources (step : σ → Except CatalogError α × σ) (h : ∀ c, pre c → failed c) :
    Leaves pre (Action.ofSources step) (fun _ => pre) failed where
  holds {f f' a} hpre hact := by
    have hcatalog := congrArg (fun p => p.2.catalog) (Option.some.inj hact)
    exact hcatalog ▸ hpre
  fails {f f' e} hpre hact := by
    have hcatalog := congrArg (fun p => p.2.catalog) (Option.some.inj hact)
    exact hcatalog ▸ h _ hpre

theorem catalog :
    Leaves pre (Action.catalog : Action σ Catalog) (fun c d => c = d ∧ pre d) failed where
  holds hpre hact := by
    cases hact
    exact ⟨rfl, hpre⟩
  fails _ hact := by cases hact

theorem forM {l : List β} {act : β → Action σ Unit}
    (h : ∀ b, Leaves pre (act b) (fun _ => pre) failed) :
    Leaves pre (l.forM act) (fun _ => pre) failed := by
  induction l with
  | nil => exact .pure fun _ => id
  | cons b l ih => exact (h b).bind fun _ => ih

theorem mapM {l : List β} {act : β → Action σ α}
    (h : ∀ b, Leaves pre (act b) (fun _ => pre) failed) :
    Leaves pre (l.mapM act) (fun _ => pre) failed := by
  induction l with
  | nil => exact .pure fun _ => id
  | cons b l ih =>
      rw [List.mapM_cons]
      exact (h b).bind fun _ => ih.bind fun _ => .pure fun _ => id

/-! ### Names of schemas -/

theorem resolve (name : String) (h : ∀ c, pre c → failed c) :
    Leaves pre (Command.resolve name : Action σ NodeId)
      (fun id c => pre c ∧ ∃ n, c.byName? name = some n ∧ n.id = id) failed := by
  refine catalog.bind fun c => ?_
  split
  · rename_i n found
    refine .pure ?_
    rintro d ⟨rfl, hpre⟩
    exact ⟨hpre, n, found, rfl⟩
  · exact .throw _ fun d hd => h d hd.2

theorem resolveParent (parent : Option String) (h : ∀ c, pre c → failed c) :
    Leaves pre (parent.mapM Command.resolve : Action σ (Option NodeId)) (fun _ => pre) failed := by
  cases parent with
  | none => exact .pure fun _ => id
  | some name =>
      show Leaves pre (some <$> Command.resolve name) (fun _ => pre) failed
      exact map ((resolve name h).mono (fun _ => id) fun _ _ => And.left)

end Leaves

end SchemaCatalog.Action
