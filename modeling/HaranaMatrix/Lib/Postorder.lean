import Mathlib.Data.Finset.Card
import Mathlib.Data.List.Nodup
import Mathlib.Logic.Relation

/-!
# The postorder of the paths

A walk over a graph that does not remember where it was comes to a node once for every path that
leads there. What it lists is the postorder of the tree of paths: after the children of a node, each
with what is below it, the node. In a graph without cycles the list is finite; a node is listed
twice as soon as two listed nodes have a child in common. -/

namespace Postorder

open List

variable {α : Type} (children : α → List α)

/-- `b` is below `a`, or it is `a`. -/
abbrev Below : α → α → Prop := Relation.ReflTransGen fun a b => b ∈ children a

/-- `Lists children roots out`: the paths from the roots, in postorder. -/
inductive Lists : List α → List α → Prop
  | nil : Lists [] []
  | cons {a : α} {as xs ys : List α} (hx : Lists (children a) xs) (hy : Lists as ys) : Lists (a :: as) (xs ++ a :: ys)

variable {children} {a b c n : α} {as roots out xs ys : List α}

/-- **Without an infinite descent, the list is finite.** -/
lemma exists_lists (h : ∀ a ∈ roots, Acc (fun b a => b ∈ children a) a) :
    ∃ out, Lists children roots out := by
  have single : ∀ a, Acc (fun b a => b ∈ children a) a → ∃ xs, Lists children (children a) xs := by
    intro a ha
    induction ha with
    | intro a _ ih =>
      have hall : ∀ as : List α, (∀ b ∈ as, b ∈ children a) → ∃ out, Lists children as out := by
        intro as has
        induction as with
        | nil => exact ⟨[], .nil⟩
        | cons b as ihas =>
          obtain ⟨xs, hxs⟩ := ih b (has b (mem_cons_self ..))
          obtain ⟨ys, hys⟩ := ihas fun c hc => has c (mem_cons_of_mem _ hc)
          exact ⟨_, .cons hxs hys⟩
      exact hall (children a) fun _ => id
  induction roots with
  | nil => exact ⟨[], .nil⟩
  | cons a as ih =>
    obtain ⟨xs, hxs⟩ := single a (h a (mem_cons_self ..))
    obtain ⟨ys, hys⟩ := ih fun b hb => h b (mem_cons_of_mem _ hb)
    exact ⟨_, .cons hxs hys⟩

lemma acc_of_acyclic {S : Finset α} (hS : ∀ a, ∀ b ∈ children a, b ∈ S)
    (hacyclic : ∀ a, ¬ Relation.TransGen (fun a b => b ∈ children a) a a) (a : α) :
    Acc (fun b a => b ∈ children a) a := by
  classical
  -- the number of nodes below
  let rank : α → ℕ := fun a => (S.filter fun b => Relation.TransGen (fun a b => b ∈ children a) a b).card
  have hrank : ∀ a, ∀ b ∈ children a, rank b < rank a := by
    intro a b hb
    refine Finset.card_lt_card (Finset.ssubset_iff_of_subset ?_ |>.2 ⟨b, ?_, ?_⟩)
    · intro c hc
      rw [Finset.mem_filter] at hc ⊢
      exact ⟨hc.1, .head hb hc.2⟩
    · exact Finset.mem_filter.2 ⟨hS a b hb, .single hb⟩
    · exact fun hmem => hacyclic b (Finset.mem_filter.1 hmem).2
  have hacc : ∀ k a, rank a < k → Acc (fun b a => b ∈ children a) a := by
    intro k
    induction k with
    | zero => exact fun a h => absurd h (Nat.not_lt_zero _)
    | succ k ih => exact fun a h => ⟨a, fun b hb => ih b (lt_of_lt_of_le (hrank a b hb) (Nat.lt_succ_iff.1 h))⟩
  exact hacc (rank a + 1) a (Nat.lt_succ_self _)

/-- **The list has the nodes below the roots.** -/
lemma Lists.mem_iff (h : Lists children roots out) : c ∈ out ↔ ∃ a ∈ roots, Below children a c := by
  induction h with
  | nil => simp
  | @cons a as xs ys _ _ ihx ihy =>
    rw [mem_append, mem_cons, ihx, ihy]
    constructor
    · rintro (⟨b, hb, hbc⟩ | rfl | ⟨b, hb, hbc⟩)
      · exact ⟨a, mem_cons_self .., .head hb hbc⟩
      · exact ⟨c, mem_cons_self .., .refl⟩
      · exact ⟨b, mem_cons_of_mem _ hb, hbc⟩
    · rintro ⟨b, hb, hbc⟩
      rcases mem_cons.1 hb with rfl | hb
      · rcases hbc.cases_head with rfl | ⟨d, hd, hdc⟩
        · exact .inr (.inl rfl)
        · exact .inl ⟨d, hd, hdc⟩
      · exact .inr (.inr ⟨b, hb, hbc⟩)

/-- **The children of a listed node stand before it.** -/
lemma Lists.before (h : Lists children roots out) (ha : a ∈ out) (hb : b ∈ children a) :
    ∃ l r, out = l ++ a :: r ∧ b ∈ l := by
  induction h with
  | nil => cases ha
  | @cons a' as xs ys hx _ ihx ihy =>
    rcases mem_append.1 ha with ha | ha
    · obtain ⟨l, r, rfl, hl⟩ := ihx ha
      exact ⟨l, r ++ a' :: ys, by simp, hl⟩
    rcases mem_cons.1 ha with rfl | ha
    · exact ⟨xs, ys, rfl, hx.mem_iff.2 ⟨b, hb, .refl⟩⟩
    · obtain ⟨l, r, rfl, hl⟩ := ihy ha
      exact ⟨xs ++ a' :: l, r, by simp, by simp [hl]⟩

/-- No two listed nodes have a child in common, and no root is a child of a listed node. -/
structure Tree (children : α → List α) (roots out : List α) : Prop where
  root : ∀ r ∈ roots, ∀ a ∈ out, r ∉ children a
  unique : ∀ a ∈ out, ∀ b ∈ out, ∀ c ∈ children a, c ∈ children b → a = b

section

variable (h : Lists children roots out)
include h

/-- **A list without repetitions is that of a tree.** -/
lemma Lists.tree (hn : out.Nodup) : Tree children roots out := by
  induction h with
  | nil => exact ⟨by simp, by simp⟩
  | @cons a as xs ys hx hy ihx ihy =>
    obtain ⟨hxs, hays, hdisjoint⟩ := nodup_append.1 hn
    obtain ⟨hay, hys⟩ := nodup_cons.1 hays
    have hax : a ∉ xs := fun hmem => hdisjoint a hmem a (mem_cons_self ..) rfl
    have hxy : ∀ c ∈ xs, c ∉ ys := fun c hc hc' => hdisjoint c hc c (mem_cons_of_mem _ hc') rfl
    -- what is a child of a node of `xs`, or of `a`, is in `xs`; and so for `ys`
    have hchild : ∀ b, b = a ∨ b ∈ xs → ∀ c ∈ children b, c ∈ xs := by
      rintro b (rfl | hb) c hc
      · exact hx.mem_iff.2 ⟨c, hc, .refl⟩
      · obtain ⟨r, hr, hrb⟩ := hx.mem_iff.1 hb
        exact hx.mem_iff.2 ⟨r, hr, hrb.tail hc⟩
    have hchild' : ∀ b ∈ ys, ∀ c ∈ children b, c ∈ ys := by
      intro b hb c hc
      obtain ⟨r, hr, hrb⟩ := hy.mem_iff.1 hb
      exact hy.mem_iff.2 ⟨r, hr, hrb.tail hc⟩
    have hsplit : ∀ b ∈ xs ++ a :: ys, (b = a ∨ b ∈ xs) ∨ b ∈ ys := by
      intro b hb
      rw [mem_append, mem_cons] at hb
      tauto
    have hroot : ∀ r ∈ as, r ∈ ys := fun r hr => hy.mem_iff.2 ⟨r, hr, .refl⟩
    obtain ⟨hrootx, hux⟩ := ihx hxs
    obtain ⟨hrooty, huy⟩ := ihy hys
    constructor
    · intro r hr b hb hrb
      rcases mem_cons.1 hr with rfl | hr <;> rcases hsplit b hb with hb | hb
      · exact hax (hchild b hb r hrb)
      · exact hay (hchild' b hb r hrb)
      · exact hxy r (hchild b hb r hrb) (hroot r hr)
      · exact hrooty r hr b hb hrb
    · intro b hb d hd c hc hc'
      rcases hsplit b hb with hb | hb <;> rcases hsplit d hd with hd | hd
      · rcases hb with rfl | hbx <;> rcases hd with rfl | hdx
        · rfl
        · exact absurd hc' (hrootx c hc d hdx)
        · exact absurd hc (hrootx c hc' b hbx)
        · exact hux b hbx d hdx c hc hc'
      · exact absurd (hchild' d hd c hc') (hxy c (hchild b hb c hc))
      · exact absurd (hchild' b hb c hc) (hxy c (hchild d hd c hc'))
      · exact huy b hb d hd c hc hc'

lemma Lists.mem_of_below (ha : a ∈ out) (hab : Below children a b) : b ∈ out := by
  obtain ⟨r, hr, hra⟩ := h.mem_iff.1 ha
  exact h.mem_iff.2 ⟨r, hr, hra.trans hab⟩

lemma Lists.below_or_below (ht : Tree children roots out) (ha : a ∈ out) (hb : b ∈ out)
    (hac : Below children a c) (hbc : Below children b c) : Below children a b ∨ Below children b a := by
  induction hac with
  | refl => exact .inr hbc
  | @tail d c had hdc ih =>
    rcases hbc.cases_tail with rfl | ⟨e, hbe, hec⟩
    · exact .inl (had.tail hdc)
    · obtain rfl := ht.unique d (h.mem_of_below ha had) e (h.mem_of_below hb hbe) c hdc hec
      exact ih hbe

lemma Lists.eq_root (ht : Tree children roots out) {r : α} (hr : r ∈ roots) (ha : a ∈ out)
    (har : Below children a r) : a = r := by
  rcases har.cases_tail with rfl | ⟨d, had, hdr⟩
  · rfl
  · exact absurd hdr (ht.root r hr d (h.mem_of_below ha had))

/-- **The list of a tree has no repetitions.** -/
lemma Lists.nodup (hroots : roots.Nodup) (hchildren : ∀ a, (children a).Nodup)
    (ht : Tree children roots out) : out.Nodup := by
  induction h with
  | nil => exact nodup_nil
  | @cons a as xs ys hx hy ihx ihy =>
    have hl : Lists children (a :: as) (xs ++ a :: ys) := .cons hx hy
    obtain ⟨haas, has⟩ := nodup_cons.1 hroots
    have ha : a ∈ xs ++ a :: ys := by simp
    have hxs : ∀ b ∈ xs, b ∈ xs ++ a :: ys := fun b hb => by simp [hb]
    have hys : ∀ b ∈ ys, b ∈ xs ++ a :: ys := fun b hb => by simp [hb]
    have hax : a ∉ xs := by
      intro hmem
      obtain ⟨r, hr, hra⟩ := hx.mem_iff.1 hmem
      have hrx : r ∈ xs := hx.mem_iff.2 ⟨r, hr, .refl⟩
      obtain rfl := hl.eq_root ht (mem_cons_self ..) (hxs r hrx) hra
      exact ht.root r (mem_cons_self ..) r ha hr
    have hay : a ∉ ys := by
      intro hmem
      obtain ⟨r, hr, hra⟩ := hy.mem_iff.1 hmem
      have hry : r ∈ ys := hy.mem_iff.2 ⟨r, hr, .refl⟩
      obtain rfl := hl.eq_root ht (mem_cons_self ..) (hys r hry) hra
      exact haas hr
    have htx : Tree children (children a) xs := by
      refine ⟨fun c hc b hb hcb => ?_, fun b hb d hd => ht.unique b (hxs b hb) d (hxs d hd)⟩
      obtain rfl := ht.unique a ha b (hxs b hb) c hc hcb
      exact hax hb
    have hty : Tree children as ys :=
      ⟨fun r hr b hb => ht.root r (mem_cons_of_mem _ hr) b (hys b hb),
        fun b hb d hd => ht.unique b (hys b hb) d (hys d hd)⟩
    refine nodup_append.2 ⟨ihx (hchildren a) htx, nodup_cons.2 ⟨hay, ihy has hty⟩, ?_⟩
    rintro c hc d hd rfl
    rcases mem_cons.1 hd with rfl | hd
    · exact hax hc
    obtain ⟨r, hr, hrc⟩ := hx.mem_iff.1 hc
    obtain ⟨r', hr', hrc'⟩ := hy.mem_iff.1 hd
    have hry : r' ∈ xs ++ a :: ys := hys r' (hy.mem_iff.2 ⟨r', hr', .refl⟩)
    have hne : a ≠ r' := fun heq => haas (heq ▸ hr')
    rcases hl.below_or_below ht ha hry (.head hr hrc) hrc' with hbelow | hbelow
    · exact hne (hl.eq_root ht (mem_cons_of_mem _ hr') ha hbelow)
    · exact hne (hl.eq_root ht (mem_cons_self ..) hry hbelow).symm

end

end Postorder
