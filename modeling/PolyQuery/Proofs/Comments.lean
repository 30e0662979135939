import PolyQuery.Proofs.Portable
import PolyQuery.Proofs.Quoting

/-! Comments. A reader of a statement keeps in mind where it stands and which character it read last
outside of quotes, and so sees a comment open. What the parts of a statement do to that reader is put
together as their texts are: `Watch.Runs`. -/
namespace PolyQuery

/-- The place behind a text. -/
def Place.run (d : Dialect) (p : Place) (cs : List Char) : Place := cs.foldl (step d) p

namespace Dialect

/-- The places outside of quotes. -/
def outer (d : Dialect) : List Place := [.outside, .behind d.quotes.2, .behind '\'']

/-- A text closes the quotes that it opens. -/
def Closes (d : Dialect) (s : String) : Prop := ∀ p ∈ d.outer, (p.run d s.toList).isInside = false

/-- Outside of quotes stand two dashes, or a slash and a star, which open a comment. -/
def OpensComment (d : Dialect) (s : String) : Prop :=
  ∃ before opener after, s.toList = before ++ opener ++ after ∧
    (opener = ['-', '-'] ∨ opener = ['/', '*']) ∧ (Place.outside.run d before).isInside = false

end Dialect

/-- What a reader who watches for comments knows: the place, and the last character if it stood
outside of quotes. -/
structure Watch where
  place : Place
  last : Option Char

namespace Watch

/-- A character opens a comment together with the one before it. -/
def Completes (last : Option Char) (c : Char) : Prop :=
  last = some '-' ∧ c = '-' ∨ last = some '/' ∧ c = '*'

instance (last : Option Char) (c : Char) : Decidable (Completes last c) :=
  inferInstanceAs (Decidable (_ ∨ _))

/-- One character further, unless a comment opens with it. -/
def step (d : Dialect) (w : Watch) (c : Char) : Option Watch :=
  if Completes w.last c then none
  else some ⟨w.place.step d c, if w.place.isInside then none else some c⟩

/-- To the end of a text, unless a comment opens in it. -/
def run (d : Dialect) : Watch → List Char → Option Watch
  | w, [] => some w
  | w, c :: cs => (step d w c).bind fun w' => run d w' cs

variable {d : Dialect}

theorem run_append (w : Watch) (cs es : List Char) :
    run d w (cs ++ es) = (run d w cs).bind fun w' => run d w' es := by
  induction cs generalizing w with
  | nil => rfl
  | cons c cs ih =>
    rw [List.cons_append, run, run]
    cases step d w c with
    | none => rfl
    | some w' => exact ih w'

/-- A comment opens behind a place. -/
def Opens (d : Dialect) (p : Place) (cs : List Char) : Prop :=
  ∃ before opener after, cs = before ++ opener ++ after ∧
    (opener = ['-', '-'] ∨ opener = ['/', '*']) ∧ (p.run d before).isInside = false

theorem opens_cons {p : Place} {c : Char} {cs : List Char} : Opens d p (c :: cs) ↔
    (∃ e es, cs = e :: es ∧ Completes (if p.isInside then none else some c) e) ∨
      Opens d (p.step d c) cs := by
  constructor
  · rintro ⟨before, opener, after, hcs, hopener, hout⟩
    cases before with
    | nil =>
      -- the comment opens with the first two characters
      have hout : p.isInside = false := hout
      rw [hout]
      rcases hopener with rfl | rfl
      · cases hcs
        exact .inl ⟨_, _, rfl, .inl ⟨rfl, rfl⟩⟩
      · cases hcs
        exact .inl ⟨_, _, rfl, .inr ⟨rfl, rfl⟩⟩
    | cons b before =>
      cases hcs
      exact .inr ⟨before, opener, after, rfl, hopener, hout⟩
  · rintro (⟨e, es, rfl, hopens⟩ | ⟨before, opener, after, rfl, hopener, hout⟩)
    · cases hp : p.isInside with
      | true =>
        rw [hp] at hopens
        rcases hopens with ⟨hlast, -⟩ | ⟨hlast, -⟩ <;> cases hlast
      | false =>
        rw [hp] at hopens
        rcases hopens with ⟨hlast, rfl⟩ | ⟨hlast, rfl⟩
        · cases hlast
          exact ⟨[], _, es, rfl, .inl rfl, hp⟩
        · cases hlast
          exact ⟨[], _, es, rfl, .inr rfl, hp⟩
    · exact ⟨c :: before, opener, after, rfl, hopener, hout⟩

/-- The reader stops exactly where a comment opens, perhaps with the last character before the text. -/
theorem run_eq_none {w : Watch} {cs : List Char} : run d w cs = none ↔
    (∃ e es, cs = e :: es ∧ Completes w.last e) ∨ Opens d w.place cs := by
  induction cs generalizing w with
  | nil =>
    have hnot : ¬ Opens d w.place [] := by
      rintro ⟨before, opener, after, hcs, hopener, -⟩
      rcases hopener with rfl | rfl <;> simp at hcs
    simp [run, hnot]
  | cons c cs ih =>
    rw [run, step, opens_cons]
    by_cases hc : Completes w.last c
    -- with the last character, or else further on, from where this one leads
    · rw [if_pos hc]
      exact ⟨fun _ => .inl ⟨c, cs, rfl, hc⟩, fun _ => rfl⟩
    · rw [if_neg hc, Option.bind_some, ih]
      constructor
      · exact .inr
      · rintro (⟨e, es, hcs, hopens⟩ | h)
        · cases hcs
          exact absurd hopens hc
        · exact h

theorem opensComment_iff (s : String) :
    d.OpensComment s ↔ run d ⟨.outside, none⟩ s.toList = none := by
  rw [run_eq_none]
  constructor
  · exact .inr
  · rintro (⟨e, es, -, hopens⟩ | h)
    · rcases hopens with ⟨hlast, -⟩ | ⟨hlast, -⟩ <;> cases hlast
    · exact h

/-! ### Where a text begins and ends -/

/-- Outside of quotes, and not behind a slash. -/
def Ready (d : Dialect) (w : Watch) : Prop := w.place ∈ d.outer ∧ w.last ≠ some '/'

/-- Outside of quotes, and behind no character that could open a comment. -/
def Settled (d : Dialect) (w : Watch) : Prop := Ready d w ∧ w.last ≠ some '-'

/-- Behind a dash. -/
def Signed (w : Watch) : Prop := w = ⟨.outside, some '-'⟩

/-- From wherever `S` holds, a text opens a comment exactly when `b`, and leads to where `T` holds
when it opens none. -/
def Runs (d : Dialect) (S : Watch → Prop) (b : Prop) (cs : List Char) (T : Watch → Prop) : Prop :=
  ∀ w, S w → (b ∧ run d w cs = none) ∨ (¬ b ∧ ∃ w', run d w cs = some w' ∧ T w')

variable {S T U : Watch → Prop} {b b' : Prop} {cs es : List Char}

theorem signed_ready {w : Watch} (h : Signed w) : Ready d w := by
  rw [Signed] at h
  subst h
  exact ⟨List.mem_cons_self, by decide⟩

theorem settled_start (d : Dialect) : Settled d ⟨.outside, none⟩ :=
  ⟨⟨List.mem_cons_self, by decide⟩, by decide⟩

namespace Runs

theorem nil : Runs d S False [] S := fun w hw => .inr ⟨id, w, rfl, hw⟩

theorem append (h : Runs d S b cs T) (h' : Runs d T b' es U) : Runs d S (b ∨ b') (cs ++ es) U := by
  intro w hw
  rw [run_append]
  -- a comment opens in the first text, or else in the second one, from where the first one led
  rcases h w hw with ⟨hb, hrun⟩ | ⟨hb, w', hrun, hw'⟩
  · exact .inl ⟨.inl hb, by rw [hrun]; rfl⟩
  · rw [hrun, Option.bind_some]
    rcases h' w' hw' with ⟨hb', hrun'⟩ | ⟨hb', hrest⟩
    · exact .inl ⟨.inr hb', hrun'⟩
    · exact .inr ⟨not_or.2 ⟨hb, hb'⟩, hrest⟩

theorem iff (h : Runs d S b cs T) (hb : b ↔ b') : Runs d S b' cs T := propext hb ▸ h

theorem weaken {S' : Watch → Prop} (h : Runs d S b cs T) (hS : ∀ w, S' w → S w) :
    Runs d S' b cs T := fun w hw => h w (hS w hw)

theorem reach {T' : Watch → Prop} (h : Runs d S b cs T) (hT : ∀ w, T w → T' w) : Runs d S b cs T' := by
  intro w hw
  rcases h w hw with hn | ⟨hb, w', hrun, hw'⟩
  · exact .inl hn
  · exact .inr ⟨hb, w', hrun, hT w' hw'⟩

/-- A text without comments before another one. -/
theorem before (h : Runs d S False cs T) (h' : Runs d T b es U) : Runs d S b (cs ++ es) U :=
  (h.append h').iff (by rw [false_or])

/-- One character. -/
theorem char {c : Char} (h : ∀ w, S w → ¬ Completes w.last c ∧
    T ⟨w.place.step d c, if w.place.isInside then none else some c⟩) : Runs d S False [c] T := by
  intro w hw
  obtain ⟨hc, hT⟩ := h w hw
  exact .inr ⟨id, _, by rw [run, step, if_neg hc]; rfl, hT⟩

/-- What opens a comment where a text can begin does so behind a text that opens none. -/
theorem iff_none (h : Runs d S b cs T) {w : Watch} (hw : S w) : b ↔ run d w cs = none := by
  rcases h w hw with ⟨hb, hrun⟩ | ⟨hb, w', hrun, -⟩
  · exact iff_of_true hb hrun
  · exact iff_of_false hb (by rw [hrun]; exact Option.some_ne_none w')

end Runs

/-! ### Characters -/

end Watch

/-- A character that is neither quote, dash nor slash. -/
def isBland (c : Char) : Bool :=
  c != '-' && c != '/' && c != '\'' && c != '"' && c != '[' && c != ']' && c.toNat != 96

namespace Watch
variable {d : Dialect} {S T : Watch → Prop} {b : Prop} {cs es : List Char}

theorem isInside_of_outer {p : Place} (h : p ∈ d.outer) : p.isInside = false := by
  simp only [Dialect.outer, List.mem_cons, List.not_mem_nil, or_false] at h
  rcases h with rfl | rfl | rfl <;> rfl

theorem bland_cases {c : Char} (h : isBland c = true) :
    c ≠ '-' ∧ c ≠ '/' ∧ c ≠ '\'' ∧ c ≠ d.quotes.1 ∧ c ≠ d.quotes.2 := by
  simp only [isBland, Bool.and_eq_true, bne_iff_ne] at h
  obtain ⟨⟨⟨⟨⟨⟨hdash, hslash⟩, hsingle⟩, hdouble⟩, hopen⟩, hclose⟩, hback⟩ := h
  have htick : c ≠ Char.ofNat 96 := fun hc => hback (hc ▸ rfl)
  refine ⟨hdash, hslash, hsingle, ?_⟩
  rcases Scan.quotes_cases d with hq | hq | hq <;> rw [hq]
  · exact ⟨htick, htick⟩
  · exact ⟨hopen, hclose⟩
  · exact ⟨hdouble, hdouble⟩

/-- A character that is no quote leads outside of quotes. -/
theorem step_outer {p : Place} (hp : p ∈ d.outer) {c : Char} (hsingle : c ≠ '\'')
    (hopen : c ≠ d.quotes.1) (hclose : c ≠ d.quotes.2) : p.step d c = .outside := by
  have henter : Place.enter d c = .outside := by
    rw [Place.enter, if_neg hopen, if_neg hsingle]
  -- behind a closing quote the character decides whether the name goes on
  simp only [Dialect.outer, List.mem_cons, List.not_mem_nil, or_false] at hp
  rcases hp with rfl | rfl | rfl
  · exact henter
  · rw [Place.step, if_neg hclose, henter]
  · rw [Place.step, if_neg hsingle, henter]

theorem runs_char {c : Char} (h : isBland c = true) : Runs d (Ready d) False [c] (Settled d) := by
  obtain ⟨hdash, hslash, hsingle, hopen, hclose⟩ := bland_cases (d := d) h
  refine .char fun w hw => ?_
  obtain ⟨hplace, hlast⟩ := hw
  rw [step_outer hplace hsingle hopen hclose, isInside_of_outer hplace]
  refine ⟨?_, ⟨List.mem_cons_self, fun h => hslash (Option.some.inj h)⟩,
    fun h => hdash (Option.some.inj h)⟩
  rintro (⟨-, hc⟩ | ⟨hs, -⟩)
  · exact hdash hc
  · exact hlast hs

theorem runs_bland (h : cs.all isBland = true) : Runs d (Ready d) False cs (Ready d) := by
  induction cs with
  | nil => exact .nil
  | cons c cs ih =>
    obtain ⟨hc, hcs⟩ := (Bool.and_eq_true _ _).mp h
    exact ((runs_char hc).reach fun w hw => hw.1).before (ih hcs)

/-- Any such text but the empty one leaves nothing that a comment could open with. -/
theorem runs_bland_cons {c : Char} (h : (c :: cs).all isBland = true) :
    Runs d (Ready d) False (c :: cs) (Settled d) := by
  induction cs generalizing c with
  | nil => exact runs_char (by simpa using h)
  | cons e es ih =>
    rw [List.all_cons, Bool.and_eq_true] at h
    exact ((runs_char h.1).reach fun w hw => hw.1).before (ih h.2)

/-- Behind any character but a dash, a dash opens nothing. -/
theorem runs_dash : Runs d (Settled d) False ['-'] Signed := by
  refine .char fun w hw => ?_
  obtain ⟨⟨hplace, -⟩, hlast⟩ := hw
  have hquotes : '-' ≠ d.quotes.1 ∧ '-' ≠ d.quotes.2 := by
    rcases Scan.quotes_cases d with hq | hq | hq <;> rw [hq] <;> decide
  rw [step_outer hplace (by decide) hquotes.1 hquotes.2, isInside_of_outer hplace]
  refine ⟨?_, rfl⟩
  rintro (⟨hl, -⟩ | ⟨-, hc⟩)
  · exact hlast hl
  · cases hc

theorem runs_dashes : Runs d Signed True ('-' :: cs) T := by
  intro w hw
  rw [Signed] at hw
  subst hw
  exact .inl ⟨trivial, rfl⟩

/-- Between spaces a slash opens nothing. -/
theorem runs_slash : Runs d (Ready d) False [' ', '/', ' '] (Settled d) := by
  have hquotes : '/' ≠ d.quotes.1 ∧ '/' ≠ d.quotes.2 := by
    rcases Scan.quotes_cases d with hq | hq | hq <;> rw [hq] <;> decide
  have hslash : Runs d (Settled d) False ['/'] fun w => w = ⟨.outside, some '/'⟩ := by
    refine .char fun w hw => ?_
    obtain ⟨⟨hplace, -⟩, -⟩ := hw
    rw [step_outer hplace (by decide) hquotes.1 hquotes.2, isInside_of_outer hplace]
    refine ⟨?_, rfl⟩
    rintro (⟨-, hc⟩ | ⟨-, hc⟩) <;> cases hc
  -- the blank behind the slash keeps it from opening a remark
  have hspace : Runs d (fun w => w = ⟨.outside, some '/'⟩) False [' '] (Settled d) := by
    refine .char fun w hw => ?_
    subst hw
    have hstep : Place.outside.step d ' ' = .outside := by
      obtain ⟨-, -, hsingle, hopen, hclose⟩ := bland_cases (d := d) (c := ' ') rfl
      exact step_outer List.mem_cons_self hsingle hopen hclose
    dsimp only
    rw [hstep]
    refine ⟨?_, ⟨List.mem_cons_self, ?_⟩, ?_⟩
    · rintro (⟨-, hc⟩ | ⟨-, hc⟩) <;> cases hc
    · exact fun h => nomatch h
    · exact fun h => nomatch h
  have hfirst : Runs d (Ready d) False [' '] (Settled d) := runs_char rfl
  exact (hfirst.before hslash).before hspace

theorem isBland_of_isNameChar {c : Char} (h : Dialect.isNameChar c = true) : isBland c = true := by
  have hc := Scan.nat_of_isNameChar h
  have hne (x : Char) (hx : x.toNat < 48 ∨ x.toNat = 91 ∨ x.toNat = 93) : (c != x) = true := by
    refine bne_iff_ne.2 fun h => ?_
    rw [h] at hc
    omega
  have hlast : (c.toNat != 96) = true := bne_iff_ne.2 (by omega)
  simp only [isBland, hne '-' (by decide), hne '/' (by decide), hne '\'' (by decide),
    hne '"' (by decide), hne '[' (by decide), hne ']' (by decide), hlast, Bool.and_self]

/-! ### Texts -/

/-- A text that opens no comment, also behind a dash, and behind which none opens with its end. -/
def SetsOff (d : Dialect) (s : String) : Prop := Runs d (Ready d) False s.toList (Settled d)

/-- A text that opens no comment, also behind a dash. -/
def Quiet (d : Dialect) (s : String) : Prop := Runs d (Ready d) False s.toList (Ready d)

theorem SetsOff.quiet {s : String} (h : SetsOff d s) : Quiet d s := h.reach fun _ hw => hw.1

theorem SetsOff.behind {s t : String} (ht : SetsOff d t) (hs : Quiet d s) : SetsOff d (s ++ t) := by
  rw [SetsOff, String.toList_append]
  exact hs.before ht

theorem Quiet.append {s t : String} (hs : Quiet d s) (ht : Quiet d t) : Quiet d (s ++ t) := by
  rw [Quiet, String.toList_append]
  exact Runs.before hs ht

theorem quiet_ofList (h : cs.all isBland = true) : Quiet d (String.ofList cs) := by
  rw [Quiet, String.toList_ofList]
  exact runs_bland h

theorem setsOff_of_bland {s : String} (h : s.toList.all isBland = true) (hne : s.toList ≠ []) :
    SetsOff d s := by
  obtain ⟨c, cs, hcs⟩ := List.exists_cons_of_ne_nil hne
  rw [hcs] at h
  rw [SetsOff, hcs]
  exact runs_bland_cons h

theorem setsOff_ofList {c : Char} (h : (c :: cs).all isBland = true) :
    SetsOff d (String.ofList (c :: cs)) :=
  setsOff_of_bland (by rw [String.toList_ofList]; exact h) (by simp)

theorem setsOff_space (d : Dialect) : SetsOff d " " := setsOff_ofList rfl

theorem SetsOff.intercalate {separator : String} (hs : Quiet d separator) {texts : List String}
    (hne : texts ≠ []) (h : ∀ t ∈ texts, SetsOff d t) :
    SetsOff d (separator.intercalate texts) := by
  induction texts with
  | nil => exact absurd rfl hne
  | cons t ts ih =>
    have ht := h t List.mem_cons_self
    cases ts with
    | nil => simpa using ht
    | cons u us =>
      have hrest := ih (List.cons_ne_nil _ _) fun v hv => h v (List.mem_cons_of_mem _ hv)
      rw [String.intercalate_cons_cons]
      exact hrest.behind (ht.quiet.append hs)

/-! ### Names -/

/-- At a place, with nothing before it that a comment could open with. -/
def Clear (p : Place) (w : Watch) : Prop := w.place = p ∧ w.last ≠ some '-' ∧ w.last ≠ some '/'

theorem clear_char {p q : Place} {c : Char} (hstep : p.step d c = q)
    (hc : p.isInside = true ∨ c ≠ '-' ∧ c ≠ '/') : Runs d (Clear p) False [c] (Clear q) := by
  refine .char fun w hw => ?_
  obtain ⟨hplace, hdash, hslash⟩ := hw
  rw [hplace]
  refine ⟨?_, hstep, ?_⟩
  · rintro (⟨hl, -⟩ | ⟨hl, -⟩)
    · exact hdash hl
    · exact hslash hl
  · cases hp : p.isInside with
    | true => exact ⟨nofun, nofun⟩
    | false =>
      obtain ⟨hd, hs⟩ := hc.resolve_left (by rw [hp]; exact Bool.false_ne_true)
      exact ⟨fun h => hd (Option.some.inj h), fun h => hs (Option.some.inj h)⟩

/-- Between the quotes of a name nothing opens a comment, and the name is read to its end. -/
theorem runs_body (cs : List Char) : Runs d (Clear (.inside d.quotes.2)) False
    (Quoting.doubled d.quotes.2 cs ++ [d.quotes.2]) (Clear (.behind d.quotes.2)) := by
  have hmark : d.quotes.2 ≠ '-' ∧ d.quotes.2 ≠ '/' := by
    rcases Scan.quotes_cases d with hq | hq | hq <;> rw [hq] <;> decide
  have hclose : Runs d (Clear (.inside d.quotes.2)) False [d.quotes.2]
      (Clear (.behind d.quotes.2)) := clear_char (if_pos rfl) (.inl rfl)
  induction cs with
  | nil => exact hclose
  | cons c cs ih =>
    rw [Quoting.doubled, List.flatMap_cons, List.append_assoc]
    refine Runs.before ?_ ih
    by_cases hc : c = d.quotes.2
    · -- the first of two closing quotes leads out of the quotes, the second one back
      have hback : Runs d (Clear (.behind d.quotes.2)) False [d.quotes.2]
          (Clear (.inside d.quotes.2)) := clear_char (if_pos rfl) (.inr hmark)
      rw [if_pos hc, hc]
      exact hclose.before hback
    · rw [if_neg hc]
      exact clear_char (if_neg hc) (.inl rfl)

theorem setsOff_quoted (name : String) : SetsOff d (d.quoted name) := by
  have hmark : d.quotes.1 ≠ '-' ∧ d.quotes.1 ≠ '/' ∧ d.quotes.1 ≠ '*' ∧ d.quotes.1 ≠ '\'' := by
    rcases Scan.quotes_cases d with hq | hq | hq <;> rw [hq] <;> decide
  have hopen : Runs d (Ready d) False [d.quotes.1] (Clear (.inside d.quotes.2)) := by
    refine .char fun w hw => ?_
    obtain ⟨hplace, hlast⟩ := hw
    have henter : Place.enter d d.quotes.1 = .inside d.quotes.2 := by rw [Place.enter, if_pos rfl]
    -- the same quote as the one before carries that name on
    have hstep : w.place.step d d.quotes.1 = .inside d.quotes.2 := by
      simp only [Dialect.outer, List.mem_cons, List.not_mem_nil, or_false] at hplace
      rcases hplace with h | h | h <;> rw [h, Place.step]
      · exact henter
      · split
        · rfl
        · exact henter
      · rw [if_neg hmark.2.2.2, henter]
    rw [hstep, isInside_of_outer hplace]
    refine ⟨?_, rfl, fun h => hmark.1 (Option.some.inj h), fun h => hmark.2.1 (Option.some.inj h)⟩
    rintro (⟨-, hc⟩ | ⟨hl, -⟩)
    · exact hmark.1 hc
    · exact hlast hl
  have hsettled : ∀ w, Clear (.behind d.quotes.2) w → Settled d w := by
    rintro w ⟨hplace, hdash, hslash⟩
    refine ⟨⟨?_, hslash⟩, hdash⟩
    rw [hplace]
    exact List.mem_cons_of_mem _ List.mem_cons_self
  rw [SetsOff, Quoting.toList_quoted, List.cons_append]
  exact hopen.before ((runs_body name.toList).reach hsettled)

/-- The separator that a string aggregate gets when it has none. -/
theorem setsOff_quotedComma : SetsOff d "','" := by
  have hsingle : '\'' ≠ d.quotes.1 ∧ '\'' ≠ d.quotes.2 := by
    rcases Scan.quotes_cases d with hq | hq | hq <;> rw [hq] <;> decide
  have hopen : Runs d (Ready d) False ['\''] (Clear (.inside '\'')) := by
    refine .char fun w hw => ?_
    obtain ⟨hplace, hlast⟩ := hw
    have henter : Place.enter d '\'' = .inside '\'' := by
      rw [Place.enter, if_neg hsingle.1, if_pos rfl]
    -- wherever the reader is outside of quotes, the first one takes it inside
    have hstep : w.place.step d '\'' = .inside '\'' := by
      simp only [Dialect.outer, List.mem_cons, List.not_mem_nil, or_false] at hplace
      rcases hplace with h | h | h <;> rw [h, Place.step]
      · exact henter
      · rw [if_neg hsingle.2, henter]
      · rw [if_pos rfl]
    rw [hstep, isInside_of_outer hplace]
    refine ⟨?_, rfl, by decide, by decide⟩
    rintro (⟨-, hc⟩ | ⟨-, hc⟩) <;> cases hc
  have hcomma : Runs d (Clear (.inside '\'')) False [','] (Clear (.inside '\'')) :=
    clear_char rfl (.inl rfl)
  have hclose : Runs d (Clear (.inside '\'')) False ['\''] (Settled d) := by
    refine (clear_char (q := .behind '\'') rfl (.inl rfl)).reach ?_
    rintro w ⟨hplace, hdash, hslash⟩
    refine ⟨⟨?_, hslash⟩, hdash⟩
    rw [hplace]
    simp [Dialect.outer]
  exact (hopen.before hcomma).before hclose

theorem setsOff_identifier (name : String) : SetsOff d (d.quoteIdentifier name) := by
  rcases Quoting.quoteIdentifier_cases (d := d) name with ⟨heq, hbare⟩ | ⟨heq, -⟩
  · obtain ⟨hchars, hne⟩ := Scan.isCalm_of_plain (Quoting.isPlainName_iff.2 hbare.spelled)
    obtain ⟨c, cs, hcs⟩ := List.exists_cons_of_ne_nil hne
    have hbland : (c :: cs).all isBland = true := by
      rw [← hcs]
      exact List.all_eq_true.2 fun e he => isBland_of_isNameChar (List.all_eq_true.1 hchars e he)
    rw [heq, SetsOff, hcs]
    exact runs_bland_cons hbland
  · rw [heq]
    exact setsOff_quoted name

theorem setsOff_qualified (name : String) : SetsOff d (d.quoteQualified name) := by
  rw [Quoting.quoteQualified_eq]
  refine SetsOff.intercalate (setsOff_ofList rfl).quiet ?_ ?_
  · simp
  · intro t ht
    obtain ⟨cs, -, rfl⟩ := List.mem_map.1 ht
    rw [Quoting.partText]
    split
    · exact setsOff_ofList rfl
    · exact setsOff_identifier _

theorem quiet_names (names : List String) :
    Quiet d (", ".intercalate (names.map d.quoteIdentifier)) := by
  cases names with
  | nil => exact quiet_ofList rfl
  | cons n ns =>
    refine (SetsOff.intercalate (setsOff_ofList rfl).quiet (by simp) ?_).quiet
    intro t ht
    obtain ⟨m, -, rfl⟩ := List.mem_map.1 ht
    exact setsOff_identifier m

/-! ### Numbers -/

theorem isBland_of_isPositional {c : Char} (h : Decimal.isPositional c = true) :
    isBland c = true := by
  rw [Decimal.isPositional, Bool.or_eq_true, beq_iff_eq] at h
  rcases h with h | rfl
  · refine isBland_of_isNameChar ?_
    rw [Dialect.isNameChar, Quoting.isDigit_eq, h, Bool.or_true]
  · rfl

/-- The only dash in a number without its sign stands before the digits of an exponent. -/
theorem quiet_numeral {s : String} (h : Decimal.Numeral s) : Quiet d s := by
  have hall {cs : List Char} (hcs : cs.all Decimal.isPositional = true) : cs.all isBland = true :=
    List.all_eq_true.2 fun c hc => isBland_of_isPositional (List.all_eq_true.1 hcs c hc)
  cases h with
  | positional h => exact quiet_ofList (hall h)
  | exponent h mark hmark n =>
    have hquiet : Quiet d mark := by
      have he : Runs d (Ready d) False ['e'] (Settled d) := runs_char rfl
      rcases hmark with rfl | rfl
      · exact (he.before runs_dash).reach fun _ => signed_ready
      · exact quiet_ofList rfl
    rw [Quiet, String.toList_ofList]
    exact (Runs.before (runs_bland (hall h)) hquiet).before
      (runs_bland (hall (Decimal.all_isPositional_toDigits n)))

/-- A text that opens no comment where none has been begun. -/
def Still (d : Dialect) (s : String) : Prop := Runs d (Settled d) False s.toList (Ready d)

theorem Quiet.still {s : String} (h : Quiet d s) : Still d s := h.weaken fun _ hw => hw.1

theorem SetsOff.before {s t : String} (hs : SetsOff d s) (ht : Still d t) : Quiet d (s ++ t) := by
  rw [Quiet, String.toList_append]
  exact Runs.before hs ht

theorem Still.append {s t : String} (hs : Still d s) (ht : Quiet d t) : Still d (s ++ t) := by
  rw [Still, String.toList_append]
  exact Runs.before hs ht

theorem still_dash {s : String} (h : Quiet d s) : Still d ("-" ++ s) := by
  have hdash : "-".toList = ['-'] := String.toList_ofList
  rw [Still, String.toList_append, hdash]
  exact runs_dash.before (h.weaken fun _ => signed_ready)

theorem still_number (n : Number) : Still d n.text := by
  obtain ⟨s, hs, htext⟩ := n.written
  have hquiet : Quiet d s := by
    cases hs with
    | numeral h => exact quiet_numeral h
    | infinity => exact quiet_ofList rfl
    | nan => exact quiet_ofList rfl
  rcases htext with htext | htext
  · rw [htext]
    exact hquiet.still
  · rw [htext]
    exact still_dash hquiet

theorem still_bound (b : FrameBound) : Still d b.text := by
  cases b with
  | unboundedPreceding => exact (quiet_ofList rfl).still
  | preceding rows => exact (still_number rows).append (quiet_ofList rfl)
  | currentRow => exact (quiet_ofList rfl).still
  | following rows => exact (still_number rows).append (quiet_ofList rfl)
  | unboundedFollowing => exact (quiet_ofList rfl).still

theorem quiet_frame (f : Frame) : Quiet d (Sql.frameText f) := by
  have hunit : Quiet d f.unit.keyword := by cases f.unit <;> exact quiet_ofList rfl
  have hspace : SetsOff d (f.unit.keyword ++ " ") := (setsOff_space d).behind hunit
  unfold Sql.frameText
  cases f.stop with
  | none => exact hspace.before (still_bound f.start)
  | some stop =>
    have hbetween : SetsOff d (f.unit.keyword ++ " BETWEEN ") := (setsOff_ofList rfl).behind hunit
    have hand : SetsOff d (f.unit.keyword ++ " BETWEEN " ++ f.start.text ++ " AND ") :=
      (setsOff_ofList rfl).behind (hbetween.before (still_bound f.start))
    exact hand.before (still_bound stop)

/-! ### Placeholders and raw texts -/

theorem isBland_of_isSigil {c : Char} (h : Scan.isSigil c = true) : isBland c = true := by
  simp only [Scan.isSigil, Bool.or_eq_true, beq_iff_eq] at h
  rcases h with ((rfl | rfl) | rfl) | rfl <;> rfl

theorem bland_placeholder (d : Dialect) (n : Nat) :
    ∃ c cs, (d.placeholder n).toList = c :: cs ∧ (c :: cs).all isBland = true := by
  obtain ⟨c, cs, heq, hc, hcs⟩ := Scan.placeholder_toList d n
  refine ⟨c, cs, heq, ?_⟩
  rw [List.all_cons, isBland_of_isSigil hc, Bool.true_and]
  exact List.all_eq_true.2 fun e he => isBland_of_isNameChar (List.all_eq_true.1 hcs e he)

/-- The places at which a text can end that begins outside of quotes. -/
def known (d : Dialect) : List Place := d.outer ++ [.inside d.quotes.2, .inside '\'']

theorem known_step {p : Place} (hp : p ∈ known d) (c : Char) : p.step d c ∈ known d := by
  have henter : Place.enter d c ∈ known d := by
    rw [Place.enter]
    split
    · simp [known]
    · split <;> simp [known, Dialect.outer]
  simp only [known, Dialect.outer, List.mem_append, List.mem_cons, List.not_mem_nil, or_false] at hp
  rcases hp with (rfl | rfl | rfl) | rfl | rfl <;> rw [Place.step]
  · exact henter
  · split
    · simp [known]
    · exact henter
  · split
    · simp [known]
    · exact henter
  · split <;> simp [known, Dialect.outer]
  · split <;> simp [known, Dialect.outer]

theorem outer_of_known {p : Place} (hp : p ∈ known d) (hout : p.isInside = false) : p ∈ d.outer := by
  simp only [known, List.mem_append, List.mem_cons, List.not_mem_nil, or_false] at hp
  rcases hp with hp | rfl | rfl
  · exact hp
  · cases hout
  · cases hout

/-- A character that is no quote leaves a place between quotes as it is. -/
theorem step_bland {p : Place} (hp : p ∈ known d) {c e : Char} (hc : isBland c = true)
    (he : isBland e = true) : p.step d c = p.step d e := by
  obtain ⟨-, -, hsingle, hopen, hclose⟩ := bland_cases (d := d) hc
  obtain ⟨-, -, hsingle', hopen', hclose'⟩ := bland_cases (d := d) he
  cases hin : p.isInside with
  | false =>
    have hout := outer_of_known hp hin
    rw [step_outer hout hsingle hopen hclose, step_outer hout hsingle' hopen' hclose']
  | true =>
    simp only [known, List.mem_append, List.mem_cons, List.not_mem_nil, or_false] at hp
    rcases hp with hp | rfl | rfl
    · rw [isInside_of_outer hp] at hin
      cases hin
    · rw [Place.step, Place.step, if_neg hclose, if_neg hclose']
    · rw [Place.step, Place.step, if_neg hsingle, if_neg hsingle']

/-- A text with neither dashes nor slashes opens no comment. -/
theorem run_plain {w : Watch} (hplace : w.place ∈ known d) (hlast : w.last ≠ some '/')
    (hdash : '-' ∉ cs) (hslash : '/' ∉ cs) :
    ∃ w', run d w cs = some w' ∧ w'.place = w.place.run d cs ∧ w'.place ∈ known d ∧
      w'.last ≠ some '/' := by
  induction cs generalizing w with
  | nil => exact ⟨w, rfl, rfl, hplace, hlast⟩
  | cons c cs ih =>
    obtain ⟨hc, hdash⟩ := List.ne_and_not_mem_of_not_mem_cons hdash
    obtain ⟨hc', hslash⟩ := List.ne_and_not_mem_of_not_mem_cons hslash
    have hnot : ¬ Completes w.last c := by
      rintro (⟨-, h⟩ | ⟨h, -⟩)
      · exact hc h.symm
      · exact hlast h
    have hnext : (if w.place.isInside then none else some c) ≠ some '/' := by
      split
      · exact nofun
      · exact fun h => hc' (Option.some.inj h).symm
    rw [run, step, if_neg hnot, Option.bind_some]
    exact ih (known_step hplace c) hnext hdash hslash

theorem quiet_closed {s : String} (hcloses : d.Closes s) (hdash : '-' ∉ s.toList)
    (hslash : '/' ∉ s.toList) : Quiet d s := by
  intro w hw
  obtain ⟨w', hrun, hplace, hknown, hlast⟩ :=
    run_plain (List.mem_append_left _ hw.1) hw.2 hdash hslash
  refine .inr ⟨id, w', hrun, outer_of_known hknown ?_, hlast⟩
  rw [hplace]
  exact hcloses _ hw.1

/-- Characters that are no quotes lead where one of them leads. -/
theorem place_bland {p : Place} (hp : p ∈ known d) {c : Char} (h : (c :: cs).all isBland = true) :
    p.run d (c :: cs) = p.step d '?' := by
  -- after one bland character the place is settled: a second one does not move it
  have hagain : ∀ p ∈ known d, (p.step d '?').step d '?' = p.step d '?' := by
    intro p hp
    obtain ⟨-, -, hsingle, hopen, hclose⟩ := bland_cases (d := d) (c := '?') rfl
    cases hin : p.isInside with
    | false =>
      rw [step_outer (outer_of_known hp hin) hsingle hopen hclose]
      exact step_outer List.mem_cons_self hsingle hopen hclose
    | true =>
      have hstay : p.step d '?' = p := by
        simp only [known, List.mem_append, List.mem_cons, List.not_mem_nil, or_false] at hp
        rcases hp with hp | rfl | rfl
        · rw [isInside_of_outer hp] at hin
          cases hin
        · rw [Place.step, if_neg hclose]
        · rw [Place.step, if_neg hsingle]
      rw [hstay, hstay]
  induction cs generalizing p c with
  | nil =>
    rw [List.all_cons, Bool.and_eq_true] at h
    exact step_bland hp h.1 rfl
  | cons e es ih =>
    rw [List.all_cons, Bool.and_eq_true] at h
    rw [Place.run, List.foldl_cons, step_bland hp h.1 (e := '?') rfl]
    exact (ih (known_step hp '?') h.2).trans (hagain p hp)

theorem split_ne_nil (quoted : Bool) (cs : List Char) : Raw.split quoted cs ≠ [] := by
  cases cs with
  | nil => simp [Raw.split]
  | cons c cs =>
    rw [Raw.split]
    split
    · exact List.cons_ne_nil _ _
    · dsimp only
      split <;> exact List.cons_ne_nil _ _

theorem chars_interleave_cons (c : Char) (piece : List Char) (pieces : List (List Char))
    (values : List Value) (n : Nat) : (Raw.interleave ((c :: piece) :: pieces) values).chars d n =
      c :: (Raw.interleave (piece :: pieces) values).chars d n := by
  cases values with
  | nil => simp [Raw.interleave, Fragment.chars_text]
  | cons v vs => simp [Raw.interleave, Fragment.chars_append, Fragment.chars_text]

/-- Raw text with its placeholders leads where the text alone leads. -/
theorem place_interleave (quoted : Bool) (cs : List Char) {values : List Value}
    (h : (Raw.split quoted cs).length = values.length + 1) (n : Nat) :
    (∀ p ∈ known d, p.run d ((Raw.interleave (Raw.split quoted cs) values).chars d n) = p.run d cs) ∧
      ∀ c ∈ (Raw.interleave (Raw.split quoted cs) values).chars d n, c ∈ cs ∨ isBland c = true := by
  induction cs generalizing quoted values n with
  | nil =>
    obtain rfl : values = [] := by simpa [Raw.split] using h
    have hchars : (Raw.interleave (Raw.split quoted []) []).chars d n = [] := by
      rw [Raw.split, Raw.interleave, Fragment.chars_text]
      exact String.toList_ofList
    rw [hchars]
    exact ⟨fun p _ => rfl, fun e he => absurd he List.not_mem_nil⟩
  | cons c cs ih =>
    by_cases hplace : c = '?' ∧ quoted = false
    · -- a placeholder stands for the mark, and neither has a quote
      rw [Raw.split, if_pos hplace] at h ⊢
      obtain ⟨rfl, rfl⟩ := hplace
      have hlength : (Raw.split false cs).length = values.length := by simpa using h
      cases values with
      | nil => exact absurd (List.length_eq_zero_iff.1 hlength) (split_ne_nil false cs)
      | cons v vs =>
        obtain ⟨e, es, hplaceholder, hbland⟩ := bland_placeholder d (n + 1)
        obtain ⟨hrun, hmem⟩ := ih false hlength (n + 1)
        have hchars : (Raw.interleave ([] :: Raw.split false cs) (v :: vs)).chars d n =
            (e :: es) ++ (Raw.interleave (Raw.split false cs) vs).chars d (n + 1) := by
          rw [← hplaceholder]
          simp [Raw.interleave, Fragment.chars_append, Fragment.chars_text, Fragment.chars_bind]
        rw [hchars]
        refine ⟨fun p hp => ?_, fun a ha => ?_⟩
        · have hfirst := place_bland hp hbland
          rw [Place.run, List.foldl_append, ← Place.run, ← Place.run, hfirst,
            hrun _ (known_step hp '?')]
          rfl
        · rcases List.mem_append.1 ha with ha | ha
          · exact .inr (List.all_eq_true.1 hbland a ha)
          · exact (hmem a ha).imp_left (List.mem_cons_of_mem _)
    · obtain ⟨piece, pieces, hsplit⟩ := List.exists_cons_of_ne_nil
        (split_ne_nil (if c = '\'' then !quoted else quoted) cs)
      have hcons : Raw.split quoted (c :: cs) = (c :: piece) :: pieces := by
        rw [Raw.split, if_neg hplace]
        dsimp only
        rw [hsplit]
      have hall := ih (if c = '\'' then !quoted else quoted)
        ((by rw [hsplit, ← h, hcons]; rfl : (Raw.split _ cs).length = values.length + 1)) n
      rw [hcons, chars_interleave_cons]
      rw [hsplit] at hall
      refine ⟨fun p hp => hall.1 _ (known_step hp c), fun a ha => ?_⟩
      rcases List.mem_cons.1 ha with rfl | ha
      · exact .inl List.mem_cons_self
      · exact (hall.2 a ha).imp_left (List.mem_cons_of_mem _)

theorem runs_raw {sql : String} {values : List Value} {f : Fragment} (hcloses : d.Closes sql)
    (hdash : '-' ∉ sql.toList) (hslash : '/' ∉ sql.toList) (h : Raw.fragment sql values = .ok f)
    (n : Nat) : Runs d (Ready d) False (f.chars d n) (Ready d) := by
  unfold Raw.fragment at h
  dsimp only at h
  split at h
  · next hlength =>
    cases h
    have hne := List.length_pos_iff.2 (split_ne_nil false sql.toList)
    have hsplit : (Raw.split false sql.toList).length = values.length + 1 := by omega
    obtain ⟨hrun, hmem⟩ := place_interleave (d := d) false sql.toList hsplit n
    intro w hw
    obtain ⟨w', hrun', hplace, hknown, hlast⟩ := run_plain (List.mem_append_left _ hw.1) hw.2
      (fun h => (hmem _ h).elim hdash nofun) (fun h => (hmem _ h).elim hslash nofun)
    refine .inr ⟨id, w', hrun', outer_of_known hknown ?_, hlast⟩
    rw [hplace, hrun _ (List.mem_append_left _ hw.1)]
    exact hcloses _ hw.1
  · cases h

end Watch

/-! ### Fragments -/

namespace Fragment
open Watch
variable {d : Dialect} {S : Watch → Prop} {b b' c : Prop} {f g : Fragment} {s t : String}

/-- From wherever `S` holds, a fragment opens a comment exactly when `b`, however many values stand
before it. -/
def Watched (d : Dialect) (S : Watch → Prop) (b : Prop) (f : Fragment) : Prop :=
  ∀ n, Runs d S b (f.chars d n) (Ready d)

/-- A fragment opens a comment. -/
def Opens (d : Dialect) (f : Fragment) : Prop := Watch.run d ⟨.outside, none⟩ (f.chars d 0) = none

namespace Watched

theorem iff (h : f.Watched d S b) (hb : b ↔ b') : f.Watched d S b' := fun n => (h n).iff hb

theorem weaken {S' : Watch → Prop} (h : f.Watched d S b) (hS : ∀ w, S' w → S w) :
    f.Watched d S' b := fun n => (h n).weaken hS

theorem settled (h : f.Watched d (Ready d) b) : f.Watched d (Settled d) b :=
  h.weaken fun _ hw => hw.1

theorem append (h : f.Watched d S b) (h' : g.Watched d (Ready d) b') :
    (f ++ g).Watched d S (b ∨ b') := by
  intro n
  rw [chars_append]
  exact (h n).append (h' _)

theorem of_quiet (h : Quiet d s) : (text s).Watched d (Ready d) False := by
  intro n
  rw [chars_text]
  exact h

theorem of_empty : empty.Watched d (Ready d) False := fun _ => .nil

theorem of_bind (v : Binding) : (bind v).Watched d (Ready d) False := by
  intro n
  obtain ⟨e, es, heq, h⟩ := bland_placeholder d (n + 1)
  rw [chars_bind, heq]
  exact runs_bland h

/-- Behind a text that leaves nothing to open a comment with. -/
theorem behind (hs : SetsOff d s) (h : f.Watched d (Settled d) b) :
    (text s ++ f).Watched d (Ready d) b := by
  intro n
  rw [chars_append, chars_text]
  exact Runs.before hs (h _)

theorem before (h : f.Watched d S b) (ht : Quiet d t) : (f ++ text t).Watched d S b :=
  (h.append (of_quiet ht)).iff (by rw [or_false])

theorem enclosed (h : f.Watched d (Settled d) b) : f.enclosed.Watched d (Ready d) b :=
  (behind (setsOff_ofList rfl) h).before (quiet_ofList rfl)

/-- What is seen of a fragment from one place is seen from all. -/
theorem opens_iff (h : f.Watched d (Settled d) b) : f.Opens d ↔ b :=
  ((h 0).iff_none (settled_start d)).symm

/-- So it may be told by its own text what a fragment opens. -/
theorem told (h : f.Watched d (Ready d) b) : f.Watched d (Ready d) (f.Opens d) :=
  h.iff h.settled.opens_iff.symm

/-- Fragments between separators, each of which is seen from wherever `S` holds. -/
theorem join (hs : SetsOff d s) (hlow : ∀ w, Settled d w → S w) (hhigh : ∀ w, S w → Ready d w)
    {fs : List Fragment} (h : ∀ f ∈ fs, f.Watched d S (f.Opens d)) :
    (join s fs).Watched d S (∃ f ∈ fs, f.Opens d) := by
  induction fs with
  | nil => exact (of_empty.weaken hhigh).iff (by simp)
  | cons f fs ih =>
    have hf := h f List.mem_cons_self
    cases fs with
    | nil => exact hf.iff (by simp)
    | cons g gs =>
      have hrest := behind hs ((ih fun k hk => h k (List.mem_cons_of_mem _ hk)).weaken hlow)
      rw [join_cons_cons, append_assoc]
      exact (hf.append hrest).iff (by simp)

/-- Fragments in a list, behind a text or as an operand of nothing. -/
theorem joined (hs : SetsOff d s) {fs : List Fragment}
    (h : ∀ f ∈ fs, f.Watched d (Settled d) (f.Opens d)) :
    (Fragment.join s fs).Watched d (Settled d) (∃ f ∈ fs, f.Opens d) :=
  join hs (fun _ h => h) (fun _ h => h.1) h

end Watched

/-- A fragment opens a comment where `b` holds, and behind a dash also where `c` holds. -/
structure Noted (d : Dialect) (b c : Prop) (f : Fragment) : Prop where
  settled : f.Watched d (Settled d) b
  signed : f.Watched d Signed (b ∨ c)

namespace Noted

theorem iff (h : f.Noted d b c) (hb : b ↔ b') {c' : Prop} (hc : c ↔ c') : f.Noted d b' c' :=
  ⟨h.settled.iff hb, h.signed.iff (or_congr hb hc)⟩

theorem of_ready (h : f.Watched d (Ready d) b) : f.Noted d b False :=
  ⟨h.settled, (h.weaken fun _ => signed_ready).iff (by rw [or_false])⟩

theorem append (h : f.Noted d b c) (h' : g.Watched d (Ready d) b') :
    (f ++ g).Noted d (b ∨ b') c :=
  ⟨h.settled.append h', (h.signed.append h').iff or_right_comm⟩

theorem before (h : f.Noted d b c) (ht : Quiet d t) : (f ++ text t).Noted d b c :=
  (h.append (.of_quiet ht)).iff (by rw [or_false]) Iff.rfl

/-- A sign before a text that begins with a sign opens a comment. -/
theorem behind_dash (h : f.Noted d b c) : (text "-" ++ f).Noted d (b ∨ c) True := by
  have hdash : "-".toList = ['-'] := String.toList_ofList
  refine ⟨fun n => ?_, fun n => ?_⟩
  · rw [chars_append, chars_text, hdash]
    exact runs_dash.before (h.signed _)
  · rw [chars_append, chars_text, hdash, List.singleton_append]
    exact runs_dashes.iff (by simp)

theorem enclosed (h : f.Noted d b c) : f.enclosed.Noted d b False := of_ready h.settled.enclosed

end Noted

end Fragment

end PolyQuery
