import Mathlib.Data.Prod.Lex
import PolyQuery.Proofs.Portable
import PolyQuery.Proofs.Refusal

/-! Newer servers. A later version of a backend has all features of an earlier one, so that a statement
that compiles for the earlier version compiles for the later one, with the same values:
`compile_upgrade`. -/
namespace PolyQuery

namespace Version

/-- The version of a triple of naturals. -/
def ofTriple (t : ℕ ×ₗ ℕ ×ₗ ℕ) : Version :=
  .of (ofLex t).1 (ofLex (ofLex t).2).1 (ofLex (ofLex t).2).2

theorem int_eq (a b : ℕ) : Number.eq (.int a) (.int b) = decide (a = b) := by
  have hint : Number.eq (.int a) (.int b) = (Number.int a == Number.int b) := rfl
  rw [hint, Bool.eq_iff_iff, beq_iff_eq, decide_eq_true_iff, Number.int.injEq, Int.natCast_inj]

theorem int_lt (a b : ℕ) : Number.lt (.int a) (.int b) = decide (a < b) := by
  simp [Number.lt, Number.ratio?]

theorem triple_lt_iff (v w : ℕ ×ₗ ℕ ×ₗ ℕ) : v < w ↔
    (ofLex v).1 < (ofLex w).1 ∨ (ofLex v).1 = (ofLex w).1 ∧
      ((ofLex (ofLex v).2).1 < (ofLex (ofLex w).2).1 ∨
        (ofLex (ofLex v).2).1 = (ofLex (ofLex w).2).1 ∧
          (ofLex (ofLex v).2).2 < (ofLex (ofLex w).2).2) :=
  (Prod.Lex.toLex_lt_toLex (x := ofLex v) (y := ofLex w)).trans
    (or_congr_right (and_congr_right' Prod.Lex.toLex_lt_toLex))

/-- Versions are compared from the left: they are equal, or the first components that differ are in the
order of the versions. -/
theorem firstDifference_ofTriple (v w : ℕ ×ₗ ℕ ×ₗ ℕ) :
    v = w ∧ firstDifference (ofTriple v).components (ofTriple w).components = none ∨
    ∃ x y : ℕ, firstDifference (ofTriple v).components (ofTriple w).components =
      some (.int x, .int y) ∧ x ≠ y ∧ (v < w ↔ x < y) := by
  rw [triple_lt_iff]
  simp only [ofTriple, of, components, firstDifference, int_eq, decide_eq_true_eq]
  by_cases hmajor : (ofLex v).1 = (ofLex w).1
  · rw [if_pos hmajor]
    by_cases hminor : (ofLex (ofLex v).2).1 = (ofLex (ofLex w).2).1
    · rw [if_pos hminor]
      by_cases hpatch : (ofLex (ofLex v).2).2 = (ofLex (ofLex w).2).2
      · rw [if_pos hpatch]
        exact .inl ⟨Prod.ext hmajor (Prod.ext hminor hpatch), rfl⟩
      · rw [if_neg hpatch]
        exact .inr ⟨_, _, rfl, hpatch, by omega⟩
    · rw [if_neg hminor]
      exact .inr ⟨_, _, rfl, hminor, by omega⟩
  · rw [if_neg hmajor]
    exact .inr ⟨_, _, rfl, hmajor, by omega⟩

theorem atLeast_iff (v m : ℕ ×ₗ ℕ ×ₗ ℕ) : (ofTriple v).atLeast (ofTriple m) = true ↔ m ≤ v := by
  unfold atLeast
  obtain ⟨rfl, hsame⟩ | ⟨x, y, hfirst, hne, hlt⟩ := firstDifference_ofTriple v m
  · rw [hsame]
    exact iff_of_true rfl le_rfl
  · rw [hfirst]
    dsimp only
    rw [int_lt, decide_eq_true_iff, ← not_lt, hlt]
    omega

/-- A later version is after all that an earlier one is after. -/
theorem atLeast_mono {v w m : ℕ ×ₗ ℕ ×ₗ ℕ} (h : v ≤ w)
    (hv : (ofTriple v).atLeast (ofTriple m) = true) : (ofTriple w).atLeast (ofTriple m) = true :=
  (atLeast_iff w m).2 (((atLeast_iff v m).1 hv).trans h)

end Version

namespace Mask

/-- All features of a mask are features of another one. -/
def Subset (a b : Mask) : Prop := a &&& b = a

theorem subset_iff {a b : Mask} : Subset a b ↔ ∀ i, a.getLsbD i = true → b.getLsbD i = true := by
  constructor
  · intro h i hi
    rw [← h, BitVec.getLsbD_and, Bool.and_eq_true] at hi
    exact hi.2
  · intro h
    refine BitVec.eq_of_getLsbD_eq fun i hi => ?_
    rw [BitVec.getLsbD_and]
    cases ha : a.getLsbD i with
    | true => rw [h i ha]; rfl
    | false => rfl

theorem Subset.or {a b c : Mask} (h : Subset a b) : Subset (a ||| c) (b ||| c) := by
  rw [subset_iff] at *
  intro i hi
  rw [BitVec.getLsbD_or, Bool.or_eq_true] at *
  exact hi.imp_left (h i)

theorem Subset.refl (a : Mask) : Subset a a := BitVec.and_self

theorem Subset.trans {a b c : Mask} (h : Subset a b) (h' : Subset b c) : Subset a c := by
  rw [subset_iff] at *
  exact fun i hi => h' i (h i hi)

theorem Subset.foldl {a b : Mask} (h : Subset a b) (flags : List Mask) :
    Subset (flags.foldl (· ||| ·) a) (flags.foldl (· ||| ·) b) := by
  induction flags generalizing a b with
  | nil => exact h
  | cons flag flags ih => exact ih h.or

theorem subset_foldl (a : Mask) (flags : List Mask) : Subset a (flags.foldl (· ||| ·) a) := by
  induction flags generalizing a with
  | nil => exact .refl a
  | cons flag flags ih =>
    have hor : Subset a (a ||| flag) := subset_iff.2 fun i hi => by
      rw [BitVec.getLsbD_or, hi]
      rfl
    exact hor.trans (ih (a ||| flag))

end Mask

namespace Capabilities
variable {c c' : Capabilities}

/-- All features are also among those of another server. -/
def Within (c c' : Capabilities) : Prop := ∀ category, Mask.Subset (c.mask category) (c'.mask category)

theorem Within.add (h : c.Within c') (category : Category) (flags : List Mask) :
    (c.add category flags).Within (c'.add category flags) := by
  intro k
  rw [mask_add, mask_add]
  split
  · exact (h category).foldl flags
  · exact h k

theorem within_add (c : Capabilities) (category : Category) (flags : List Mask) :
    c.Within (c.add category flags) := by
  intro k
  rw [mask_add]
  split
  · next hk => exact hk ▸ Mask.subset_foldl _ flags
  · exact .refl _

theorem Within.trans {c'' : Capabilities} (h : c.Within c') (h' : c'.Within c'') : c.Within c'' :=
  fun category => (h category).trans (h' category)

theorem Within.supports (h : c.Within c') {category : Category} {flags : Mask}
    (hc : c.supports category flags = true) : c'.supports category flags = true := by
  unfold Capabilities.supports includes at *
  rw [Bool.and_eq_true, beq_iff_eq] at *
  refine ⟨hc.1, ?_⟩
  have hflags : Mask.Subset flags (c.mask category) := (BitVec.and_comm _ _).trans hc.2
  exact (BitVec.and_comm _ _).trans (hflags.trans (h category))

theorem Within.supportsCategory (h : c.Within c') {category : Category}
    (hc : c.supportsCategory category = true) : c'.supportsCategory category = true := by
  unfold Capabilities.supportsCategory at *
  refine bne_iff_ne.2 fun hzero => bne_iff_ne.1 hc ?_
  have hsubset := h category
  rw [hzero] at hsubset
  exact hsubset.symm.trans BitVec.and_zero

end Capabilities

/-- A line that comes into force for one version and stays in force for another adds no less there. -/
theorem FeatureLine.within_apply {line : FeatureLine} {v w : Version} {c c' : Capabilities}
    (hline : ∀ m, line.since = some m → v.atLeast m = true → w.atLeast m = true)
    (h : c.Within c') : (line.apply v c).Within (line.apply w c') := by
  unfold FeatureLine.apply
  cases hsince : line.since with
  | none => exact h.add line.category line.flags
  | some m =>
    unfold Capabilities.addSince
    by_cases hv : v.atLeast m = true
    · dsimp only
      rw [if_pos hv, if_pos (hline m hsince hv)]
      exact h.add line.category line.flags
    · dsimp only
      rw [if_neg hv]
      split
      · exact h.trans (Capabilities.within_add c' _ _)
      · exact h

/-- Whatever is there at first, a version has no more features than another that has all its lines. -/
theorem FeatureLine.within_foldl {lines : List FeatureLine} {v w : Version} {c c' : Capabilities}
    (hlines : ∀ line ∈ lines, ∀ m, line.since = some m → v.atLeast m = true → w.atLeast m = true)
    (h : c.Within c') :
    (lines.foldl (FeatureLine.apply v) c).Within (lines.foldl (FeatureLine.apply w) c') := by
  induction lines generalizing c c' with
  | nil => exact h
  | cons line lines ih =>
    obtain ⟨hline, hlines⟩ := List.forall_mem_cons.1 hlines
    exact ih hlines (line.within_apply hline h)

namespace Backend

/-- Features come with versions of three naturals. -/
theorem since_natural (b : Backend) : ∀ line ∈ b.features, ∀ m, line.since = some m →
    ∃ x y z : ℕ, m = .of x y z := by
  have hof (x y z : ℕ) : ∃ x' y' z' : ℕ, Version.of x y z = .of x' y' z' := ⟨x, y, z, rfl⟩
  cases b <;> simp [features, sqliteFeatures, mysqlFeatures, mariadbFeatures, postgresFeatures,
    oracleFeatures, sqlserverFeatures, hof]

/-- A later version of a backend has all features of an earlier one. -/
theorem capabilities_within (b : Backend) {v w : ℕ ×ₗ ℕ ×ₗ ℕ} (h : v ≤ w) :
    (b.capabilities (.ofTriple v)).Within (b.capabilities (.ofTriple w)) := by
  have hlines : ∀ line ∈ b.features, ∀ m, line.since = some m →
      (Version.ofTriple v).atLeast m = true → (Version.ofTriple w).atLeast m = true := by
    intro line hline m hm hv
    obtain ⟨x, y, z, rfl⟩ := b.since_natural line hline m hm
    exact Version.atLeast_mono (m := toLex (x, toLex (y, z))) h hv
  exact FeatureLine.within_foldl hlines fun _ => .refl _

end Backend

section
variable (b : Backend) {v w : ℕ ×ₗ ℕ ×ₗ ℕ} (h : v ≤ w)
include h

/-- Only early versions write `TOP`. -/
theorem Dialect.paginationStyle_top
    (hw : (Dialect.mk b (.ofTriple w)).paginationStyle = .top) :
    (Dialect.mk b (.ofTriple v)).paginationStyle = .top := by
  have hmono := Version.atLeast_mono (m := toLex (11, toLex (0, 0))) h
  unfold paginationStyle at *
  cases b with
  | sqlserver =>
    dsimp only at *
    split at hw
    · cases hw
    · next hnot => exact if_neg (mt hmono hnot)
  | oracle =>
    dsimp only at hw
    split at hw <;> cases hw
  | _ => cases hw

/-- A demand that is met by a version is met by later ones. -/
theorem Demand.check_upgrade {u : Demand} (hv : u.check ⟨b, .ofTriple v⟩ = .ok ()) :
    u.check ⟨b, .ofTriple w⟩ = .ok () := by
  have hwithin := b.capabilities_within h
  have hoffered := offered_of_check hv
  cases u with
  | feature category flags => exact if_pos (hwithin.supports hoffered)
  | windows function => exact if_pos (hwithin.supportsCategory hoffered)
  | skip offset =>
    by_cases hw : cannotSkip ⟨b, .ofTriple w⟩ offset
    · have hskip : cannotSkip ⟨b, .ofTriple v⟩ offset :=
        ⟨Dialect.paginationStyle_top b h hw.1, hw.2⟩
      have herror : Demand.check ⟨b, .ofTriple v⟩ (.skip offset) = .error _ := if_pos hskip
      rw [herror] at hv
      cases hv
    · exact if_neg hw
  | columns name query => exact hv
  | window function => exact hv
  | places sql parameters => exact hv

/-- A later version of a backend has all features of an earlier one, and each statement that compiles
for the earlier version compiles for the later one and binds the same values there. -/
theorem compile_upgrade :
    (∀ category, Mask.Subset ((b.capabilities (.ofTriple v)).mask category)
      ((b.capabilities (.ofTriple w)).mask category)) ∧
    ∀ s c, compile ⟨b, .ofTriple v⟩ s = .ok c →
      ∃ c', compile ⟨b, .ofTriple w⟩ s = .ok c' ∧
        c'.parameters = c.parameters ∧ c'.bindings = c.bindings := by
  refine ⟨b.capabilities_within h, fun s c hc => ?_⟩
  obtain ⟨f, hcheck, hf, _⟩ := compile_ok hc
  have hmet := (Sql.judges_statement (d := ⟨b, .ofTriple v⟩) s).met f hf
  cases hw : Sql.statement ⟨b, .ofTriple w⟩ s with
  | error e =>
    -- the later version would refuse a demand that the earlier one meets
    obtain ⟨u, hu, hrefused⟩ := (Sql.judges_statement s).refused e hw
    rw [Demand.check_upgrade b h (hmet u hu)] at hrefused
    cases hrefused
  | ok f' =>
    have hc' : compile ⟨b, .ofTriple w⟩ s = .ok ⟨f'.sql ⟨b, .ofTriple w⟩, f'.bindings⟩ := by
      rw [compile, hcheck, hw]
      rfl
    -- whether a server splits lists depends on its backend only
    have hslots : Slots.statement ⟨b, .ofTriple w⟩ s = Slots.statement ⟨b, .ofTriple v⟩ s :=
      Slots.statement_congr fun _ _ => .inl rfl
    have hbindings : f'.bindings = c.bindings := by
      rw [compile_bindings hc, ← hslots, ← compile_bindings hc']
    exact ⟨_, hc', congrArg (List.map Binding.value) hbindings, hbindings⟩

end

/-- Oracle writes pages with row numbers first, and with `FETCH` in later versions. -/
theorem compile_upgrade_pagedNames :
    (toLex (11, toLex (2, 0)) : ℕ ×ₗ ℕ ×ₗ ℕ) ≤ toLex (12, toLex (1, 0)) ∧
    ∃ c c', compile ⟨.oracle, .of 11 2 0⟩ pagedNames = .ok c ∧
      c.sql = "SELECT * FROM (SELECT q_.*, ROWNUM rn_ FROM (SELECT * FROM t WHERE name IN " ++
        "(:p1, :p2) GROUP BY name HAVING count(*) > :p3 ORDER BY name ASC) q_ " ++
        "WHERE ROWNUM <= 15) WHERE rn_ > 5" ∧
      compile ⟨.oracle, .of 12 1 0⟩ pagedNames = .ok c' ∧
      c'.sql = "SELECT * FROM t WHERE name IN (:p1, :p2) GROUP BY name HAVING count(*) > :p3 " ++
        "ORDER BY name ASC OFFSET 5 ROWS FETCH NEXT 10 ROWS ONLY" ∧
      c'.parameters = c.parameters ∧ c'.bindings = c.bindings := by
  have hle : (toLex (11, toLex (2, 0)) : ℕ ×ₗ ℕ ×ₗ ℕ) ≤ toLex (12, toLex (1, 0)) := by decide
  obtain ⟨c, hc, hsql⟩ := compile_of_sql (d := ⟨.oracle, .of 11 2 0⟩) (s := pagedNames)
    ("SELECT * FROM (SELECT q_.*, ROWNUM rn_ FROM (SELECT * FROM t WHERE name IN " ++
      "(:p1, :p2) GROUP BY name HAVING count(*) > :p3 ORDER BY name ASC) q_ " ++
      "WHERE ROWNUM <= 15) WHERE rn_ > 5") (by decide +kernel)
  obtain ⟨c', hc', hsame⟩ := (compile_upgrade .oracle hle).2 pagedNames c hc
  obtain ⟨c'', hc'', hsql'⟩ := compile_of_sql (d := ⟨.oracle, .of 12 1 0⟩) (s := pagedNames)
    ("SELECT * FROM t WHERE name IN (:p1, :p2) GROUP BY name HAVING count(*) > :p3 " ++
      "ORDER BY name ASC OFFSET 5 ROWS FETCH NEXT 10 ROWS ONLY") (by decide +kernel)
  obtain rfl : c' = c'' := Except.ok.inj (hc'.symm.trans hc'')
  exact ⟨hle, c, c', hc, hsql, hc', hsql', hsame⟩

end PolyQuery
