import HaranaMatrix.StoreCodec.Layout

/-!
# Keys

Two uses of encoded keys: scanning by a tuple that ends with `Interfix`, which matches whole
components, and comparing bytes, which compares the tuples unless a string in front of other fields
is a proper start of the string that it is compared with. -/

namespace HaranaMatrix.StoreCodec

open Bytes List StoreCodec.Field

variable {fs gs ps qs : List Field} {f g : Field}

/-! ## Prefix scans -/

lemma bytes_length_of_ty (h : f.ty = g.ty) (hf : f.ty ≠ .string) : f.bytes.length = g.bytes.length := by
  cases f <;> cases g <;> simp_all [ty, bytes]

lemma bytes_inj (h : f.ty = g.ty) (hbytes : f.bytes = g.bytes) : f = g := by
  cases f <;> cases g <;> first | (cases h; done) | skip
  next v w => rw [utf8_inj hbytes]
  next v w => rw [UInt64.toNat_inj.1 (toBe_inj v.toNat_lt w.toNat_lt hbytes)]
  next v w =>
    have := UInt64.toNat_inj.1 (toBe_inj v.toUInt64.toNat_lt w.toUInt64.toNat_lt hbytes)
    rw [← Int64.toInt64_toUInt64 v, this, Int64.toInt64_toUInt64]

lemma field_prefix_iff (h : f.ty = g.ty) (as bs : List UInt8) :
    f.bytes ++ SEP :: as <+: g.bytes ++ SEP :: bs ↔ f = g ∧ as <+: bs := by
  by_cases hf : f.ty = .string
  · cases f <;> cases g <;> first | (cases h; done) | (cases hf; done) | skip
    next v w =>
      simp only [bytes, terminated_prefix_iff (sep_notMem_utf8 v) (sep_notMem_utf8 w), string.injEq]
      exact and_congr_left fun _ => ⟨utf8_inj, congrArg utf8⟩
  · have hlen := bytes_length_of_ty h hf
    constructor
    · rintro ⟨cs, heq⟩
      rw [append_assoc] at heq
      obtain ⟨hbytes, hrest⟩ := append_inj heq hlen
      exact ⟨bytes_inj h hbytes, cs, List.cons.inj hrest |>.2⟩
    · rintro ⟨rfl, cs, rfl⟩
      exact ⟨cs, by simp⟩

lemma records_eq (h : gs ≠ []) : records gs = SEP :: layout gs := by
  obtain ⟨g', gs, rfl⟩ := exists_cons_of_ne_nil h
  rfl

lemma layout_cons (h : gs ≠ []) : layout (g :: gs) = g.bytes ++ SEP :: layout gs := by
  rw [layout_eq, records_eq h]

/-- **Prefix scans match whole components only.** -/
theorem interfix_prefix_iff (debug : Bool) (h : ps.length < qs.length)
    (hty : ps.map ty = (qs.take ps.length).map ty) :
    ∃ start key, serializeToVec debug (.tuple (ps.map value ++ [.interfix])) = .ok start ∧
      serializeToVec debug (.tuple (qs.map value)) = .ok key ∧
      (start <+: key ↔ ps = qs.take ps.length) := by
  refine ⟨scan ps, layout qs, serializeToVec_interfix debug ps, serializeToVec_tuple debug qs, ?_⟩
  induction ps generalizing qs with
  | nil => simp [scan]
  | cons p ps ih =>
    cases qs with
    | nil => simp at h
    | cons q qs =>
      simp only [length_cons, Nat.add_lt_add_iff_right] at h
      simp only [length_cons, take_succ_cons, map_cons, List.cons.injEq] at hty
      have hne : qs ≠ [] := by
        rintro rfl
        simp at h
      rw [scan_cons, layout_cons hne, field_prefix_iff hty.1, ih h hty.2, length_cons,
        take_succ_cons, List.cons.injEq]

theorem interfix_prefix_iff_room :
    ∃ start key, serializeToVec true (.tuple [.str "@alice", .interfix]) = .ok start ∧
      serializeToVec true (.tuple [.str "@alice2", .u64 7]) = .ok key ∧ ¬ start <+: key := by
  have hlen : [string "@alice"].length < [string "@alice2", .u64 7].length := by decide
  obtain ⟨start, key, hstart, hkey, hiff⟩ := interfix_prefix_iff true hlen rfl
  exact ⟨start, key, hstart, hkey, fun h => absurd (hiff.1 h) (by decide)⟩

/-! ## The order of keys -/

/-- Strings by their UTF-8 bytes, integers numerically. Fields of different types are not
compared. -/
instance : Ord Field where
  compare
    | .string v, .string w => compare (utf8 v) (utf8 w)
    | .u64 v, .u64 w => compare v.toNat w.toNat
    | .i64 v, .i64 w => compare v.toInt w.toInt
    | _, _ => .eq

/-- At the first difference of two tuples, a string in front of other fields is a proper start of
the other string. -/
def Overtaken (fs gs : List Field) : Prop :=
  ∃ pre v w fs' gs', fs = pre ++ .string v :: fs' ∧ gs = pre ++ .string w :: gs' ∧ fs' ≠ [] ∧ v ≠ w ∧
    (utf8 v <+: utf8 w ∨ utf8 w <+: utf8 v)

lemma overtaken_cons_self : Overtaken (f :: fs) (f :: gs) ↔ Overtaken fs gs := by
  constructor
  · rintro ⟨pre, v, w, fs', gs', hfs, hgs, hrest⟩
    cases pre with
    | nil =>
      rw [nil_append, List.cons.injEq] at hfs hgs
      have : string v = .string w := hfs.1.symm.trans hgs.1
      exact absurd (string.inj this) hrest.2.1
    | cons p pre =>
      rw [cons_append, List.cons.injEq] at hfs hgs
      exact ⟨pre, v, w, fs', gs', hfs.2, hgs.2, hrest⟩
  · rintro ⟨pre, v, w, fs', gs', rfl, rfl, hrest⟩
    exact ⟨f :: pre, v, w, fs', gs', rfl, rfl, hrest⟩

lemma overtaken_cons_of_ne (h : f ≠ g) : Overtaken (f :: fs) (g :: gs) ↔
    fs ≠ [] ∧ ∃ v w, f = .string v ∧ g = .string w ∧ (utf8 v <+: utf8 w ∨ utf8 w <+: utf8 v) := by
  constructor
  · rintro ⟨pre, v, w, fs', gs', hfs, hgs, hne, -, hstart⟩
    cases pre with
    | nil =>
      rw [nil_append, List.cons.injEq] at hfs hgs
      exact ⟨hfs.2 ▸ hne, v, w, hfs.1, hgs.1, hstart⟩
    | cons p pre =>
      rw [cons_append, List.cons.injEq] at hfs hgs
      exact absurd (hfs.1.trans hgs.1.symm) h
  · rintro ⟨hne, v, w, rfl, rfl, hstart⟩
    exact ⟨[], v, w, fs, gs, rfl, rfl, hne, fun heq => h (heq ▸ rfl), hstart⟩

lemma compare_field_self (f : Field) : compare f f = .eq := by
  cases f with
  | string v => exact Std.ReflOrd.compare_self (a := utf8 v)
  | u64 v => exact Std.ReflOrd.compare_self (a := v.toNat)
  | i64 v => exact Std.ReflOrd.compare_self (a := v.toInt)

lemma compare_bytes (hty : f.ty = g.ty) (hf : f.ty ≠ .i64) : compare f.bytes g.bytes = compare f g := by
  cases f <;> cases g <;> first | (cases hty; done) | skip
  next v w => rfl
  next v w =>
    have hv : v.toNat < 256 ^ 8 := v.toNat_lt
    have hw : w.toNat < 256 ^ 8 := w.toNat_lt
    rw [bytes, bytes, compare_toBe, Nat.mod_eq_of_lt hv, Nat.mod_eq_of_lt hw]
    rfl
  next v w => exact absurd rfl hf

lemma compare_field_ne (hty : f.ty = g.ty) (hf : f.ty ≠ .i64) (h : f ≠ g) : compare f g ≠ .eq := by
  rw [← compare_bytes hty hf]
  exact fun heq => h (bytes_inj hty (Std.LawfulEqOrd.eq_of_compare heq))

lemma compare_start {v w : String} (h : v ≠ w) (hstart : utf8 v <+: utf8 w) (as bs : List UInt8) :
    compare (utf8 v) (utf8 w) = .lt ∧ compare (utf8 v ++ SEP :: as) (utf8 w ++ bs) = .gt ∧
      compare (utf8 w) (utf8 v) = .gt ∧ compare (utf8 w ++ bs) (utf8 v ++ SEP :: as) = .lt := by
  obtain ⟨cs, hcs⟩ := hstart
  cases cs with
  | nil => exact absurd (utf8_inj (by rw [← hcs, append_nil])) h
  | cons b cs =>
    have hb : b.toNat < SEP.toNat := utf8_lt w b (by rw [← hcs]; simp)
    rw [← hcs]
    refine compare_terminated_start ?_ ?_
    · rw [compare_toNat]
      exact compare_lt_iff_lt.2 hb
    · rw [compare_toNat]
      exact compare_gt_iff_gt.2 hb

lemma compare_layout_of_not_overtaken (hty : f.ty = g.ty) (hf : f.ty ≠ .i64) (h : f ≠ g)
    (hempty : fs = [] ↔ gs = []) (hover : ¬ Overtaken (f :: fs) (g :: gs)) :
    compare (layout (f :: fs)) (layout (g :: gs)) = compare f g := by
  by_cases hnil : fs = []
  · rw [hempty.1 hnil, hnil, layout_eq, layout_eq, records_nil, append_nil, append_nil, compare_bytes hty hf]
  · have hstart : ∀ {f g : Field}, f.ty = g.ty → f ≠ g → (f.ty = .string → ¬ f.bytes <+: g.bytes) →
        ¬ f.bytes <+: g.bytes := fun {f g} hty h hstring hbegins => by
      by_cases hf : f.ty = .string
      · exact hstring hf hbegins
      · exact h (bytes_inj hty (hbegins.eq_of_length (bytes_length_of_ty hty hf)))
    rw [overtaken_cons_of_ne h] at hover
    rw [layout_eq, layout_eq, compare_append (hstart hty h ?_) (hstart hty.symm h.symm ?_),
      compare_bytes hty hf]
    all_goals
      intro hstring hbegins
      cases f <;> cases g <;> first | (cases hty; done) | (cases hstring; done) | skip
    next v w => exact hover ⟨hnil, v, w, rfl, rfl, .inl hbegins⟩
    next v w => exact hover ⟨hnil, v, w, rfl, rfl, .inr hbegins⟩

/-- **At a difference, the bytes compare as the tuples, unless a string is overtaken.** -/
theorem compare_layout_of_ne (hty : f.ty = g.ty) (hf : f.ty ≠ .i64) (h : f ≠ g) (hempty : fs = [] ↔ gs = []) :
    compare (layout (f :: fs)) (layout (g :: gs)) = compare (f :: fs)
    (g :: gs) ↔ ¬ Overtaken (f :: fs) (g :: gs) := by
  have hcmp : compare (f :: fs) (g :: gs) = compare f g := by
    rw [List.compare_cons_cons]
    have hne := compare_field_ne hty hf h
    cases hfg : compare f g with
    | eq => exact absurd hfg hne
    | lt | gt => rfl
  rw [hcmp]
  refine ⟨fun heq hover => ?_, compare_layout_of_not_overtaken hty hf h hempty⟩
  obtain ⟨hnil, v, w, rfl, rfl, hstart⟩ := (overtaken_cons_of_ne h).1 hover
  have hvw : v ≠ w := fun heq => h (heq ▸ rfl)
  rw [layout_cons hnil, layout_cons (mt hempty.2 hnil), ← compare_bytes hty hf, bytes, bytes] at heq
  rcases hstart with hstart | hstart
  · obtain ⟨hlt, hgt, -⟩ := compare_start hvw hstart (layout fs) (SEP :: layout gs)
    rw [hlt, hgt] at heq
    cases heq
  · obtain ⟨-, -, hgt, hlt⟩ := compare_start hvw.symm hstart (layout gs) (SEP :: layout fs)
    rw [hlt, hgt] at heq
    cases heq

/-- **Where the byte order of keys is the order of their tuples.** -/
theorem key_order_iff (debug : Bool) (hty : fs.map ty = gs.map ty) (hkey : ∀ f ∈ fs, f.ty ≠ .i64) :
    ∃ key key', serializeToVec debug (.tuple (fs.map value)) = .ok key ∧
      serializeToVec debug (.tuple (gs.map value)) = .ok key' ∧
      (compare key key' = compare fs gs ↔ ¬ Overtaken fs gs) := by
  refine ⟨layout fs, layout gs, serializeToVec_tuple debug fs, serializeToVec_tuple debug gs, ?_⟩
  induction fs generalizing gs with
  | nil =>
    cases gs with
    | nil => simp [Overtaken, layout]
    | cons g gs => cases hty
  | cons f fs ih =>
    cases gs with
    | nil => cases hty
    | cons g gs =>
      simp only [map_cons, List.cons.injEq] at hty
      obtain ⟨hf, hkey⟩ := forall_mem_cons.1 hkey
      have hempty : fs = [] ↔ gs = [] := by
        rw [← map_eq_nil_iff, hty.2, map_eq_nil_iff]
      by_cases h : f = g
      · subst h
        rw [overtaken_cons_self, ← ih hty.2 hkey, layout_eq, layout_eq, compare_append_left,
          List.compare_cons_cons, compare_field_self, Ordering.eq_then]
        by_cases hnil : fs = []
        · rw [hempty.1 hnil, hnil]
          rfl
        · rw [records_eq hnil, records_eq (mt hempty.2 hnil), List.compare_cons_cons,
            Std.ReflOrd.compare_self, Ordering.eq_then]
      · exact compare_layout_of_ne hty.1 hf h hempty

theorem key_order_iff_numbers :
    ∃ key key', serializeToVec true (.tuple [.str "a", .u64 255]) = .ok key ∧
      serializeToVec true (.tuple [.str "a", .u64 256]) = .ok key' ∧ compare key key' = .lt := by
  have hkey : ∀ f ∈ [string "a", .u64 255], f.ty ≠ .i64 := by simp [ty]
  have hty : [string "a", .u64 255].map ty = [string "a", .u64 256].map ty := rfl
  obtain ⟨key, key', hkey, hkey', hiff⟩ := key_order_iff true hty hkey
  refine ⟨key, key', hkey, hkey', (hiff.2 ?_).trans (by decide)⟩
  rw [overtaken_cons_self, overtaken_cons_of_ne (by decide)]
  exact fun h => h.1 rfl

/-- **A longer string overtakes its start.** `("a", "")` comes before `("aa", "")`, but not its
bytes. -/
theorem string_start_sorts_last :
    serializeToVec true (.tuple [.str "a", .str ""]) = .ok [0x61, 0xFF] ∧
      serializeToVec true (.tuple [.str "aa", .str ""]) = .ok [0x61, 0x61, 0xFF] ∧
      compare [string "a", .string ""] [string "aa", .string ""] = .lt ∧
      compare ([0x61, 0xFF] : List UInt8) [0x61, 0x61, 0xFF] = .gt := by
  refine ⟨?_, ?_, ?_, ?_⟩ <;> rfl

end HaranaMatrix.StoreCodec
