import SchemaCatalog.NameHash
import SchemaCatalog.Proofs.Catalog.Ownership

/-!
What the hash of names keeps apart. Each byte is taken in by a step that loses nothing: the prime is
odd, so multiplying by it can be undone. Byte strings that have come apart are therefore never
brought together again by the same bytes, and tables whose names differ in one byte have different
ids.
-/

namespace SchemaCatalog

namespace NameHash

/-! ### One byte -/

def absorb (hash : UInt64) (b : UInt8) : UInt64 :=
  (hash * prime) ^^^ b.toUInt64

/-- The inverse of the prime. -/
def primeInverse : UInt64 := 0xce965057aff6957b

theorem prime_mul_primeInverse : prime * primeInverse = 1 := by
  decide

theorem mul_prime_inj {g h : UInt64} : g * prime = h * prime ↔ g = h := by
  constructor
  · intro same
    calc
      g = g * prime * primeInverse := by
        rw [UInt64.mul_assoc, prime_mul_primeInverse, UInt64.mul_one]
      _ = h * prime * primeInverse := by rw [same]
      _ = h := by rw [UInt64.mul_assoc, prime_mul_primeInverse, UInt64.mul_one]
  · rintro rfl
    rfl

theorem absorb_left_inj {g h : UInt64} (b : UInt8) : absorb g b = absorb h b ↔ g = h := by
  rw [absorb, absorb, UInt64.xor_left_inj, mul_prime_inj]

theorem absorb_right_inj (h : UInt64) {b c : UInt8} : absorb h b = absorb h c ↔ b = c := by
  rw [absorb, absorb, UInt64.xor_right_inj, UInt8.toUInt64_inj]

/-! ### Byte strings -/

theorem ofBytes_eq_foldl (bytes : List UInt8) : ofBytes bytes = bytes.foldl absorb offsetBasis :=
  rfl

/-- The same bytes bring no two words together. -/
theorem foldl_absorb_inj {g h : UInt64} (bytes : List UInt8) :
    bytes.foldl absorb g = bytes.foldl absorb h ↔ g = h := by
  induction bytes generalizing g h with
  | nil => rfl
  | cons b bytes ih => rw [List.foldl_cons, List.foldl_cons, ih, absorb_left_inj]

theorem ofBytes_append_inj (x y s : List UInt8) :
    ofBytes (x ++ s) = ofBytes (y ++ s) ↔ ofBytes x = ofBytes y := by
  simp only [ofBytes_eq_foldl, List.foldl_append, foldl_absorb_inj]

theorem ofBytes_cons_inj (p s : List UInt8) (b c : UInt8) :
    ofBytes (p ++ b :: s) = ofBytes (p ++ c :: s) ↔ b = c := by
  simp only [ofBytes_eq_foldl, List.foldl_append, List.foldl_cons, foldl_absorb_inj,
    absorb_right_inj]

/-! ### Names -/

/-- The byte strings have different bytes in one place and the same bytes around it. -/
def Neighbours (x y : List UInt8) : Prop :=
  ∃ p b c s, b ≠ c ∧ x = p ++ b :: s ∧ y = p ++ c :: s

/-- The bytes of a name in lowercase, which is what is hashed. -/
def nameBytes (name : String) : List UInt8 :=
  Text.Utf8.encode (Text.lowercase name)

theorem ofName_eq (name : String) : ofName name = ofBytes (nameBytes name) := rfl

theorem Neighbours.ofName_ne {m n : String} (h : Neighbours (nameBytes m) (nameBytes n)) :
    ofName m ≠ ofName n := by
  obtain ⟨p, b, c, s, hbc, hm, hn⟩ := h
  rwa [Ne, ofName_eq, ofName_eq, hm, hn, ofBytes_cons_inj]

end NameHash

/-! ### Tables of a catalog -/

namespace Run

variable {σ : Type} {r : Run σ}

/-- The table stands in the index of a node in some state of the run. -/
def Indexes (r : Run σ) (t : Table) : Prop :=
  ∃ f n name, r.Visits f ∧ n ∈ f.catalog.nodes ∧ n.directory.tables.get? name = some t

theorem Indexes.id_eq {t : Table} (h : r.Indexes t) : t.id = NameHash.ofName t.name := by
  obtain ⟨f, n, name, visited, created, held⟩ := h
  obtain ⟨i, hi⟩ := List.mem_iff_getElem?.mp created
  obtain ⟨owner, -, signed⟩ := Run.signed visited ⟨i⟩ n hi name t held
  exact signed.id

end Run

namespace NameHash

/-- The hash keeps apart what differs in one byte, whatever stands around it, and bytes that are
appended to two byte strings neither bring them together nor set them apart. So tables have
different ids wherever their names differ in one byte, whichever nodes list them and whenever. -/
theorem neighbours_apart :
    (∀ (p s : List UInt8) (b c : UInt8), ofBytes (p ++ b :: s) = ofBytes (p ++ c :: s) ↔ b = c) ∧
    (∀ x y s : List UInt8, ofBytes (x ++ s) = ofBytes (y ++ s) ↔ ofBytes x = ofBytes y) ∧
    (∀ m n : String, Neighbours (nameBytes m) (nameBytes n) → ofName m ≠ ofName n) ∧
    ∀ {σ : Type} (r : Run σ) (t u : Table), r.Indexes t → r.Indexes u →
      Neighbours (nameBytes t.name) (nameBytes u.name) → t.id ≠ u.id := by
  refine ⟨ofBytes_cons_inj, ofBytes_append_inj, fun m n => Neighbours.ofName_ne, ?_⟩
  intro σ r t u listed listed' neighbours
  rw [listed.id_eq, listed'.id_eq]
  exact neighbours.ofName_ne

end NameHash

/-- A node with two numbered tables, of which the node above has taken over the first. -/
def Run.numbered : Run Unit where
  backend := silent
  sources := ()
  operations := [.create "kv" none, .addTable ⟨0⟩ (.new "Orders1"), .create "main" none,
    .attach ⟨1⟩ ⟨0⟩, .addTable ⟨0⟩ (.new "ORDERS2")]

theorem NameHash.neighbours_apart_numbered : ∃ t u, Run.numbered.Indexes t ∧
    Run.numbered.Indexes u ∧ t.name = "orders1" ∧ u.name = "orders2" ∧
    Neighbours (nameBytes t.name) (nameBytes u.name) ∧ t.id ≠ u.id := by
  have computed : ((Run.numbered.after Run.numbered.operations).map fun f =>
      (((f.catalog.node? ⟨1⟩).bind (·.directory.tables.get? "orders1")).map (·.name),
        ((f.catalog.node? ⟨0⟩).bind (·.directory.tables.get? "orders2")).map (·.name))) =
      some (some "orders1", some "orders2") := by
    decide +kernel
  obtain ⟨f, hf, hfound⟩ := Option.map_eq_some_iff.mp computed
  obtain ⟨hcopy, hown⟩ := Prod.mk.inj hfound
  obtain ⟨t, ht, tname⟩ := Option.map_eq_some_iff.mp hcopy
  obtain ⟨u, hu, uname⟩ := Option.map_eq_some_iff.mp hown
  obtain ⟨n, hn, held⟩ := Option.bind_eq_some_iff.mp ht
  obtain ⟨m, hm, held'⟩ := Option.bind_eq_some_iff.mp hu
  have visited : Run.numbered.Visits f := ⟨_, List.prefix_rfl, hf⟩
  have copied : Run.numbered.Indexes t := ⟨f, n, _, visited, List.mem_of_getElem? hn, held⟩
  have owned : Run.numbered.Indexes u := ⟨f, m, _, visited, List.mem_of_getElem? hm, held'⟩
  have neighbours : Neighbours (nameBytes t.name) (nameBytes u.name) := by
    rw [tname, uname]
    exact ⟨nameBytes "orders", 0x31, 0x32, [], by decide, by decide +kernel, by decide +kernel⟩
  exact ⟨t, u, copied, owned, tname, uname, neighbours,
    neighbours_apart.2.2.2 Run.numbered t u copied owned neighbours⟩

end SchemaCatalog
