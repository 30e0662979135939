import PolyQuery.Proofs.Spared

/-! Columns beside relations. Loading makes slots of properties, and a column whose name is that of a slot
is lost. Which properties these are is said exactly: of the records that were there before a load the
slots of its steps in its roots, and of a loaded child the slots of the steps below its own, its inverse
slot if it was given to a parent, and the slots for which its query asked itself. All other columns
read as they were decoded, at the end and whenever a visit reads a key: `Loader.columns_of_load`. -/
namespace PolyQuery

namespace Store
variable {s t : Store} {id : Nat} {name : String} {made : Prop}

end Store

namespace Loader
open Store
variable {σ τ υ : Session} {fetch : Builder → Run (List Nat)} {ctx : LoadContext}
  {report : LoadReport} {f : LoadFrame} {frames rest waiting : List LoadFrame}
  {visits : List Visit} {step : LoadStep} {parents children roots : List Nat} {id : Nat}

/-! ## Visits -/

/-- Attaching makes slots of the records that are no children: those of the parents. -/
theorem attach_turns (h : attach step parents children σ = (.ok (), τ))
    (hid : id < σ.store.records.size) (hout : id ∉ children) (name : String) :
    Turns (id ∈ parents ∧ name = step.node.slot) σ.store τ.store id name := by
  obtain ⟨given, -, hgiven, hdealt, hchildren⟩ := attach_dealt h
  refine (hdealt.turns hid name).congr ⟨?_, ?_⟩
  · rintro ⟨d, hd, ⟨hparent, hslot⟩ | ⟨hchild, -⟩⟩
    · rw [List.mem_singleton.1 hparent, ← hgiven rfl]
      exact ⟨List.mem_map_of_mem hd, hslot⟩
    · exact (hout (hchildren d hd hchild)).elim
  · rintro ⟨hparent, hslot⟩
    obtain ⟨d, hd, rfl⟩ := List.mem_map.1 (hgiven rfl ▸ hparent)
    exact ⟨d, hd, .inl ⟨List.mem_singleton_self _, hslot⟩⟩

/-- A visit makes slots of its parents. -/
theorem visit_turns (hfetch : Adds fetch) {asked : Bool}
    (h : visit fetch ctx report f rest σ = (.ok (asked, children), τ))
    (hid : id < σ.store.records.size) (name : String) :
    Turns (id ∈ f.parents ∧ name = f.step.node.slot) σ.store τ.store id name := by
  obtain ⟨-, t, halike, rfl, hattach⟩ | ⟨-, b, s, received, hasks, hids, hattach⟩ :=
    attached_of_visit h
  · have hattached := attach_turns hattach (halike.size.symm ▸ hid) List.not_mem_nil name
    exact ((halike.turns id name).trans hattached).congr (Iff.of_eq (false_or _))
  · have hquiet := hasks.quiet.spares fun _ _ => False
    obtain ⟨hadds, hnew⟩ := hfetch b s
    rw [hids] at hadds
    have hfetched := hquiet.trans hadds
    have hold : id ∉ children := fun hchild =>
      Nat.not_lt.2 (hnew children received hids id hchild).1 (Nat.lt_of_lt_of_le hid hquiet.size)
    have hattached := attach_turns hattach (Nat.lt_of_lt_of_le hid hfetched.size) hold name
    exact ((hfetched.turns hid not_false).trans hattached).congr (Iff.of_eq (false_or _))

/-- A visit makes a slot of one of its parents. -/
def Visit.Opens (v : Visit) (id : Nat) (name : String) : Prop :=
  id ∈ v.parents ∧ name = v.step.node.slot

/-- On its way, a load makes slots of the records that were there as its visits do, and no others. What
its visits load is new. -/
theorem Passes.turns (hfetch : Adds fetch)
    (h : Passes fetch ctx report frames σ visits waiting υ) :
    σ.store.records.size ≤ υ.store.records.size ∧
      (∀ v ∈ visits, ∀ c ∈ v.children,
        σ.store.records.size ≤ c ∧ c < υ.store.records.size) ∧
      ∀ id < σ.store.records.size, ∀ name,
        Turns (∃ v ∈ visits, v.Opens id name) σ.store υ.store id name := by
  induction h with
  | here =>
    refine ⟨Nat.le_refl _, fun _ hv => (nomatch hv), fun id _ name => ?_⟩
    exact (Turns.refl _ id name).congr ⟨False.elim, fun ⟨_, hv, _⟩ => nomatch hv⟩
  | @visits report v rest waiting later υ _ hvisit _ ih =>
    obtain ⟨hsize, hnew, hturns⟩ := ih
    have hfirst := (visit_spares hfetch ctx report v.frame rest v.before).size
    rw [hvisit] at hfirst
    -- what a visit loads lies behind what was there, and later visits only add to that
    refine ⟨hfirst.trans hsize, List.forall_mem_cons.2 ⟨?_, ?_⟩, ?_⟩
    · intro c hc
      obtain ⟨hold, hthere⟩ := visit_new hfetch hvisit c hc
      exact ⟨hold, Nat.lt_of_lt_of_le hthere hsize⟩
    · intro u hu c hc
      exact ⟨hfirst.trans (hnew u hu c hc).1, (hnew u hu c hc).2⟩
    · intro id hid name
      have hlater := hturns id (Nat.lt_of_lt_of_le hid hfirst) name
      refine ((visit_turns hfetch hvisit hid name).trans hlater).congr ?_
      rw [List.exists_mem_cons_iff]
      rfl

/-- A record is loaded by one visit. -/
theorem Passes.loaded_once (hfetch : Adds fetch)
    (h : Passes fetch ctx report frames σ visits waiting υ) {v u : Visit} (hv : v ∈ visits)
    (hu : u ∈ visits) {c : Nat} (hcv : c ∈ v.children) (hcu : c ∈ u.children) : v = u := by
  induction h with
  | here => cases hv
  | @visits report first rest waiting later υ _ hvisit hlater ih =>
    have hnew := (hlater.turns hfetch).2.1
    have hfirst := visit_new hfetch hvisit
    rcases List.mem_cons.1 hv with rfl | hv' <;> rcases List.mem_cons.1 hu with rfl | hu'
    · rfl
    · exact (Nat.not_lt.2 (hnew u hu' c hcu).1 (hfirst c hcv).2).elim
    · exact (Nat.not_lt.2 (hnew v hv' c hcv).1 (hfirst c hcu).2).elim
    · exact ih hv' hu'

/-! ## Loads -/

/-- A load whose frames have all been passed made slots of its roots for the steps at the top, and of
what a visit loaded for the steps below it. -/
theorem Passes.opens_iff (hfetch : Adds fetch)
    (h : Passes fetch ctx report frames σ visits [] υ)
    (hthere : ∀ f ∈ frames, ∀ p ∈ f.parents, p < σ.store.records.size) (name : String) :
    (∀ id < σ.store.records.size, (∃ u ∈ visits, u.Opens id name) ↔
      ∃ f ∈ frames, id ∈ f.parents ∧ name = f.step.node.slot) ∧
    ∀ v ∈ visits, ∀ c ∈ v.children, (∃ u ∈ visits, u.Opens c name) ↔
      ∃ s ∈ v.step.children, name = s.node.slot := by
  obtain ⟨-, hnew, -⟩ := h.turns hfetch
  have hframes := h.frames_eq
  rw [List.append_nil] at hframes
  have hvisited {g : LoadFrame} (hg : g ∈ frames ++ visits.flatMap Visit.below) :
      ∃ u ∈ visits, u.frame = g := List.mem_map.1 (hframes ▸ hg)
  have hfrom {u : Visit} (hu : u ∈ visits) :
      u.frame ∈ frames ∨ ∃ v ∈ visits, u.parents = v.children ∧ u.step ∈ v.step.children := by
    have hmem : u.frame ∈ frames ++ visits.flatMap Visit.below :=
      hframes ▸ List.mem_map_of_mem hu
    refine (List.mem_append.1 hmem).imp_right fun hbelow => ?_
    obtain ⟨v, hv, hbelow⟩ := List.mem_flatMap.1 hbelow
    obtain ⟨s, hs, heq⟩ := List.mem_map.1 hbelow
    have hstep : s = u.step := congrArg LoadFrame.step heq
    have hparents : v.children = u.parents := congrArg LoadFrame.parents heq
    exact ⟨v, hv, hparents.symm, hstep ▸ hs⟩
  -- a record that was there is no child of a visit, and a child of one is no child of another
  constructor
  · intro id hid
    constructor
    · rintro ⟨u, hu, hparent, hslot⟩
      rcases hfrom hu with hframe | ⟨v, hv, hparents, -⟩
      · exact ⟨u.frame, hframe, hparent, hslot⟩
      · exact (Nat.not_lt.2 (hnew v hv id (hparents ▸ hparent)).1 hid).elim
    · rintro ⟨f, hf, hparent, hslot⟩
      obtain ⟨u, hu, rfl⟩ := hvisited (List.mem_append_left _ hf)
      exact ⟨u, hu, hparent, hslot⟩
  · intro v hv c hc
    constructor
    · rintro ⟨u, hu, hparent, hslot⟩
      rcases hfrom hu with hframe | ⟨w, hw, hparents, hstep⟩
      · exact (Nat.not_lt.2 (hnew v hv c hc).1 (hthere u.frame hframe c hparent)).elim
      · obtain rfl := h.loaded_once hfetch hw hv (hparents ▸ hparent) hc
        exact ⟨u.step, hstep, hslot⟩
    · rintro ⟨s, hs, hslot⟩
      have hbelow : (⟨s, v.children⟩ : LoadFrame) ∈ visits.flatMap Visit.below :=
        List.mem_flatMap.2 ⟨v, hv, List.mem_map.2 ⟨s, hs, rfl⟩⟩
      obtain ⟨u, hu, hframe⟩ := hvisited (List.mem_append_right frames hbelow)
      have hstep : u.step = s := congrArg LoadFrame.step hframe
      have hparents : u.parents = v.children := congrArg LoadFrame.parents hframe
      exact ⟨u, hu, hparents ▸ hc, hstep ▸ hslot⟩

theorem exists_frame_iff {steps : List LoadStep} {name : String} :
    (∃ f ∈ steps.map fun s => (⟨s, parents⟩ : LoadFrame),
        id ∈ f.parents ∧ name = f.step.node.slot) ↔
      id ∈ parents ∧ ∃ s ∈ steps, name = s.node.slot := by
  constructor
  · rintro ⟨f, hf, hid, hslot⟩
    obtain ⟨s, hs, rfl⟩ := List.mem_map.1 hf
    exact ⟨hid, s, hs, hslot⟩
  · rintro ⟨hid, s, hs, hslot⟩
    exact ⟨⟨s, parents⟩, List.mem_map.2 ⟨s, hs, rfl⟩, hid, hslot⟩

theorem there_of_roots (steps : List LoadStep) {s : Store}
    (hroots : ∀ id ∈ roots, id < s.records.size) :
    ∀ f ∈ steps.map fun s => (⟨s, roots⟩ : LoadFrame), ∀ p ∈ f.parents, p < s.records.size := by
  intro f hf p hp
  obtain ⟨step, -, rfl⟩ := List.mem_map.1 hf
  exact hroots p hp

section
variable {w : Waiting} {depth : Nat} {watched : Bool} {b : Builder} {s : Session}

end

/-- Posts, whose column of the author is the key for the author and for the author's profile. -/
def signedPost : Model :=
  oneRelation "Post" "posts" "main" [("author", ⟨"User", "author", .belongsTo none, none, none⟩),
    ("profile", ⟨"Profile", "author", .belongsTo (some "userId"), none, none⟩)]

/-- Posts with authors and profiles. -/
def signedPosts : List Model :=
  [signedPost, oneRelation "User" "users" "main" [], oneRelation "Profile" "profiles" "main" []]

/-- A post by the first user, and a server that answers with this user first and then with nothing. -/
def signed : Session :=
  { Session.fresh with
    models := signedPosts
    connections := [("main", .connection "main")]
    links := [("main", ⟨.make .sqlite none, false,
      [.rows [[("id", .number (.int 1)), ("name", .string "ann")]] none, .rows [] none]⟩)]
    store := { Store.empty with records := #[
      .ofRow [("id", .number (.int 7)), ("author", .number (.int 1))]] } }

end Loader
end PolyQuery
