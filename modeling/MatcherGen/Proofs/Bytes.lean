/-
Text and its bytes. Decoding keeps every byte: a scalar that is read is written with the bytes it was read from, and a byte
that belongs to none stays as it is. So bytes are the same if and only if they read as the same text. Bytes of ASCII stand for
ASCII characters wherever they occur: no other scalar has one among its bytes, and none is stray.

Main statements:
- `scalarAt_bytes`: the bytes of a scalar are those it was read from;
- `Text.bytes_ofBytes`, `Text.ofBytes_injective`: decoding loses nothing;
- `Text.occurs_of_bytes`: ASCII text that occurs among the bytes occurs in the text.
-/
import Mathlib.Tactic
import MatcherGen.Text.Glyph

namespace MatcherGen

/-! ## Scalars -/

theorem toNat_ofNat_of_valid {n : Nat} (h : n.isValidChar) : (Char.ofNat n).toNat = n := by
  rw [Char.ofNat, dif_pos h]
  rfl

theorem toUInt8_eq {n : Nat} {b : UInt8} (h : n = b.toNat) : n.toUInt8 = b := by
  subst h
  exact UInt8.ofNat_toNat

theorem isTailByte_iff {b : UInt8} : isTailByte b = true ↔ 0x80 ≤ b.toNat ∧ b.toNat ≤ 0xbf := by
  simp [isTailByte, UInt8.le_iff_toNat_le]

theorem asciiByte_bytes {a : UInt8} (h : a < 0x80) : utf8Bytes (Char.ofNat a.toNat) = [a] := by
  rw [UInt8.lt_iff_toNat_lt] at h
  change a.toNat < 0x80 at h
  have hn := toNat_ofNat_of_valid (n := a.toNat) (by left; omega)
  unfold utf8Bytes
  dsimp only
  rw [hn, if_pos h, toUInt8_eq rfl]

theorem twoByteScalar_bytes {a b : UInt8} {x : Char} (h : twoByteScalar a b = some x) : utf8Bytes x = [a, b] := by
  unfold twoByteScalar at h
  split_ifs at h with hbytes
  simp only [Bool.and_eq_true, decide_eq_true_eq, isTailByte_iff, UInt8.le_iff_toNat_le, UInt8.reduceToNat] at hbytes
  obtain rfl := Option.some.inj h
  have hn := toNat_ofNat_of_valid (n := (a.toNat - 0xc0) * 64 + (b.toNat - 0x80)) (by left; omega)
  unfold utf8Bytes
  dsimp only
  rw [hn, if_neg (by omega), if_pos (by omega), toUInt8_eq (b := a) (by omega), toUInt8_eq (b := b) (by simp; omega)]

theorem threeByteScalar_bytes {a b c : UInt8} {x : Char} (h : threeByteScalar a b c = some x) :
    utf8Bytes x = [a, b, c] := by
  unfold threeByteScalar at h
  dsimp only at h
  split_ifs at h with hbytes
  simp only [Bool.and_eq_true, Bool.not_eq_true', Bool.and_eq_false_iff, decide_eq_true_eq, decide_eq_false_iff_not,
    isTailByte_iff, UInt8.le_iff_toNat_le, UInt8.reduceToNat] at hbytes
  obtain rfl := Option.some.inj h
  have hn := toNat_ofNat_of_valid
    (n := (a.toNat - 0xe0) * 4096 + (b.toNat - 0x80) * 64 + (c.toNat - 0x80)) (by unfold Nat.isValidChar; omega)
  unfold utf8Bytes
  dsimp only
  rw [hn, if_neg (by omega), if_neg (by omega), if_pos (by omega), toUInt8_eq (b := a) (by omega),
    toUInt8_eq (b := b) (by simp; omega), toUInt8_eq (b := c) (by simp; omega)]

theorem fourByteScalar_bytes {a b c d : UInt8} {x : Char} (h : fourByteScalar a b c d = some x) :
    utf8Bytes x = [a, b, c, d] := by
  unfold fourByteScalar at h
  dsimp only at h
  split_ifs at h with hbytes
  simp only [Bool.and_eq_true, decide_eq_true_eq, isTailByte_iff, UInt8.le_iff_toNat_le, UInt8.reduceToNat] at hbytes
  obtain rfl := Option.some.inj h
  have hn := toNat_ofNat_of_valid
    (n := (a.toNat - 0xf0) * 262144 + (b.toNat - 0x80) * 4096 + (c.toNat - 0x80) * 64 + (d.toNat - 0x80))
    (by right; omega)
  unfold utf8Bytes
  dsimp only
  rw [hn, if_neg (by omega), if_neg (by omega), if_neg (by omega), toUInt8_eq (b := a) (by omega),
    toUInt8_eq (b := b) (by simp; omega), toUInt8_eq (b := c) (by simp; omega), toUInt8_eq (b := d) (by simp; omega)]

/-- **A scalar is written with the bytes it was read from.** -/
theorem scalarAt_bytes {a : UInt8} {rest : List UInt8} {x : Char} {n : Nat} (h : scalarAt a rest = some (x, n)) :
    utf8Bytes x = a :: rest.take n := by
  have htwo : ∀ {b : UInt8} {r : List UInt8}, (twoByteScalar a b).map (·, 1) = some (x, n) →
      utf8Bytes x = a :: (b :: r).take n := by
    intro b r hmap
    obtain ⟨y, hy, hyx⟩ := Option.map_eq_some_iff.1 hmap
    obtain ⟨rfl, rfl⟩ := Prod.mk.inj hyx
    exact twoByteScalar_bytes hy
  have hthree : ∀ {b c : UInt8} {r : List UInt8}, (threeByteScalar a b c).map (·, 2) = some (x, n) →
      utf8Bytes x = a :: (b :: c :: r).take n := by
    intro b c r hmap
    obtain ⟨y, hy, hyx⟩ := Option.map_eq_some_iff.1 hmap
    obtain ⟨rfl, rfl⟩ := Prod.mk.inj hyx
    exact threeByteScalar_bytes hy
  unfold scalarAt at h
  split_ifs at h with hascii
  · obtain ⟨rfl, rfl⟩ := Prod.mk.inj (Option.some.inj h)
    exact asciiByte_bytes hascii
  · match rest, h with
    | [b], h => exact htwo h
    | [b, c], h =>
      simp only [Option.orElse_eq_or, Option.or_eq_some_iff] at h
      rcases h with h | ⟨-, h⟩
      · exact htwo h
      · exact hthree h
    | b :: c :: d :: r, h =>
      simp only [Option.orElse_eq_or, Option.or_eq_some_iff] at h
      rcases h with h | ⟨-, h | ⟨-, h⟩⟩
      · exact htwo h
      · exact hthree h
      · obtain ⟨y, hy, hyx⟩ := Option.map_eq_some_iff.1 h
        obtain ⟨rfl, rfl⟩ := Prod.mk.inj hyx
        exact fourByteScalar_bytes hy

theorem Glyph.bytes_ne_nil (g : Glyph) : g.bytes ≠ [] := by
  cases g with
  | scalar c =>
    simp only [Glyph.bytes, utf8Bytes]
    split_ifs <;> simp
  | stray b => simp [Glyph.bytes]

/-! ## Text -/

namespace Text

theorem bytes_ofBytesSkipping (skip : Nat) (bs : List UInt8) : (ofBytesSkipping skip bs).bytes = bs.drop skip := by
  induction bs generalizing skip with
  | nil => cases skip <;> rfl
  | cons a r ih =>
    cases skip with
    | succ skip => exact ih skip
    | zero =>
      rw [ofBytesSkipping, List.drop_zero]
      split
      · rename_i c n hscalar
        calc Text.bytes (.scalar c :: ofBytesSkipping n r) = utf8Bytes c ++ (ofBytesSkipping n r).bytes := rfl
          _ = a :: (r.take n ++ r.drop n) := by rw [scalarAt_bytes hscalar, ih, List.cons_append]
          _ = a :: r := by rw [List.take_append_drop]
      · calc Text.bytes (.stray a :: ofBytesSkipping 0 r) = a :: (ofBytesSkipping 0 r).bytes := rfl
          _ = a :: r := by rw [ih, List.drop_zero]

/-- **Decoding loses nothing.** -/
theorem bytes_ofBytes (bs : List UInt8) : (ofBytes bs).bytes = bs := bytes_ofBytesSkipping 0 bs

theorem bytes_eq_nil_iff {t : Text} : t.bytes = [] ↔ t = [] := by
  constructor
  · intro h
    cases t with
    | nil => rfl
    | cons g r =>
      obtain ⟨hg, -⟩ := List.append_eq_nil_iff.1 h
      exact absurd hg g.bytes_ne_nil
  · rintro rfl
    rfl

theorem ofBytes_injective : Function.Injective ofBytes := Function.LeftInverse.injective bytes_ofBytes

/-! ### ASCII -/

/-- text whose stray bytes are none of ASCII, as all text that is decoded -/
def StraysHigh (t : Text) : Prop := ∀ b, .stray b ∈ t → 0x80 ≤ b.toNat

theorem ofBytesSkipping_straysHigh (skip : Nat) (bs : List UInt8) : (ofBytesSkipping skip bs).StraysHigh := by
  induction bs generalizing skip with
  | nil => cases skip <;> exact fun b hb => absurd hb List.not_mem_nil
  | cons a r ih =>
    cases skip with
    | succ skip => exact ih skip
    | zero =>
      rw [ofBytesSkipping]
      split
      · rename_i c n hscalar
        intro b hb
        exact ih n b ((List.mem_cons.1 hb).resolve_left (by simp))
      · rename_i hnone
        intro b hb
        rcases List.mem_cons.1 hb with hstray | hb
        · obtain rfl := Glyph.stray.inj hstray
          by_contra hlow
          have hascii : b < 0x80 := UInt8.lt_iff_toNat_lt.2 (not_le.1 hlow)
          simp [scalarAt, hascii] at hnone
        · exact ih 0 b hb

theorem ofBytes_straysHigh (bs : List UInt8) : (ofBytes bs).StraysHigh := ofBytesSkipping_straysHigh 0 bs

end Text

/-- a glyph has one byte of ASCII, its own, or none -/
theorem Glyph.bytes_cases {g : Glyph} (hg : ∀ b, g = .stray b → 0x80 ≤ b.toNat) :
    (∃ c : Char, c.toNat < 0x80 ∧ g = .scalar c ∧ g.bytes = [c.toNat.toUInt8]) ∨ ∀ b ∈ g.bytes, 0x80 ≤ b.toNat := by
  cases g with
  | stray b => exact Or.inr fun x hx => by rw [List.mem_singleton.1 hx]; exact hg b rfl
  | scalar c =>
    by_cases hascii : c.toNat < 0x80
    · exact Or.inl ⟨c, hascii, rfl, by simp [Glyph.bytes, utf8Bytes, hascii]⟩
    · have hc : c.toNat < 0x110000 := by
        have := c.valid
        unfold UInt32.isValidChar Nat.isValidChar at this
        change c.toNat < 0xd800 ∨ 0xdfff < c.toNat ∧ c.toNat < 0x110000 at this
        omega
      refine Or.inr fun b hb => ?_
      simp only [Glyph.bytes, utf8Bytes, if_neg hascii] at hb
      have hbyte : ∀ n : Nat, (0x80 ≤ n ∧ n < 0x100) → 0x80 ≤ n.toUInt8.toNat := by
        intro n hn
        change 0x80 ≤ n % 256
        omega
      split_ifs at hb with htwo hthree
      · simp only [List.mem_cons, List.not_mem_nil, or_false] at hb
        rcases hb with rfl | rfl <;> exact hbyte _ (by constructor <;> omega)
      · simp only [List.mem_cons, List.not_mem_nil, or_false] at hb
        rcases hb with rfl | rfl | rfl <;> exact hbyte _ (by constructor <;> omega)
      · simp only [List.mem_cons, List.not_mem_nil, or_false] at hb
        rcases hb with rfl | rfl | rfl | rfl <;> exact hbyte _ (by constructor <;> omega)

namespace Text

theorem bytes_ofChars_cons {c : Char} (hc : c.toNat < 0x80) (p : List Char) :
    (ofChars (c :: p)).bytes = c.toNat.toUInt8 :: (ofChars p).bytes := by
  simp [bytes, ofChars, Glyph.bytes, utf8Bytes, hc]

theorem toNat_asciiByte {c : Char} (hc : c.toNat < 0x80) : c.toNat.toUInt8.toNat = c.toNat :=
  Nat.mod_eq_of_lt (show c.toNat < 256 by omega)

/-- ASCII text at the front of the bytes is at the front of the text -/
theorem startsWith_of_bytes {t : Text} (ht : t.StraysHigh) {p : List Char} (hp : ∀ c ∈ p, c.toNat < 0x80)
    (h : (ofChars p).bytes <+: t.bytes) : ofChars p <+: t := by
  induction p generalizing t with
  | nil => exact List.nil_prefix
  | cons c p ih =>
    have hc := hp c List.mem_cons_self
    rw [bytes_ofChars_cons hc] at h
    cases t with
    | nil => exact absurd (List.prefix_nil.1 h) (List.cons_ne_nil _ _)
    | cons g r =>
      have hr : StraysHigh r := fun b hb => ht b (List.mem_cons_of_mem g hb)
      change _ <+: g.bytes ++ bytes r at h
      rcases g.bytes_cases (fun b hb => ht b (hb ▸ List.mem_cons_self)) with ⟨x, hx, rfl, hbytes⟩ | hhigh
      · rw [hbytes, List.singleton_append, List.cons_prefix_cons] at h
        have hnat : c.toNat = x.toNat := by rw [← toNat_asciiByte hc, h.1, toNat_asciiByte hx]
        obtain rfl : c = x := Char.ext (UInt32.toNat_inj.1 hnat)
        exact List.cons_prefix_cons.2 ⟨rfl, ih hr (fun y hy => hp y (List.mem_cons_of_mem c hy)) h.2⟩
      · obtain ⟨b, bs, hg⟩ := List.exists_cons_of_ne_nil g.bytes_ne_nil
        rw [hg, List.cons_append, List.cons_prefix_cons] at h
        have hb := hhigh b (by simp [hg])
        rw [← h.1, toNat_asciiByte hc] at hb
        omega

/-- bytes that start with one of ASCII do not start inside of other bytes -/
theorem occurs_of_high {x : UInt8} (hx : x.toNat < 0x80) {p bs r : List UInt8} (hbs : ∀ b ∈ bs, 0x80 ≤ b.toNat)
    (h : x :: p <:+: bs ++ r) : x :: p <:+: r := by
  induction bs with
  | nil => exact h
  | cons b bs ih =>
    have hb := hbs b List.mem_cons_self
    rcases List.infix_cons_iff.1 h with hfront | hlater
    · obtain ⟨rfl, -⟩ := List.cons_prefix_cons.1 hfront
      omega
    · exact ih (fun y hy => hbs y (List.mem_cons_of_mem b hy)) hlater

/-- **ASCII text that occurs among the bytes occurs in the text.** -/
theorem occurs_of_bytes {t : Text} (ht : t.StraysHigh) {p : List Char} (hp : ∀ c ∈ p, c.toNat < 0x80)
    (h : (ofChars p).bytes <:+: t.bytes) : ofChars p <:+: t := by
  cases p with
  | nil => exact List.nil_infix
  | cons c p =>
    induction t with
    | nil =>
      rw [bytes_ofChars_cons (hp c List.mem_cons_self)] at h
      exact absurd (List.infix_nil.1 h) (List.cons_ne_nil _ _)
    | cons g r ih =>
      have hr : StraysHigh r := fun b hb => ht b (List.mem_cons_of_mem g hb)
      have hlater : (ofChars (c :: p)).bytes <:+: bytes r → ofChars (c :: p) <:+: g :: r :=
        fun hrest => List.infix_cons_iff.2 (Or.inr (ih hr hrest))
      rcases g.bytes_cases (fun b hb => ht b (hb ▸ List.mem_cons_self)) with ⟨x, -, -, hbytes⟩ | hhigh
      · have hcons : bytes (g :: r) = x.toNat.toUInt8 :: bytes r := by
          change g.bytes ++ bytes r = _
          rw [hbytes, List.singleton_append]
        rw [hcons, List.infix_cons_iff, ← hcons] at h
        rcases h with hfront | hrest
        · exact (startsWith_of_bytes ht hp hfront).isInfix
        · exact hlater hrest
      · have hc := hp c List.mem_cons_self
        apply hlater
        rw [bytes_ofChars_cons hc] at h ⊢
        exact occurs_of_high ((toNat_asciiByte hc).trans_lt hc) hhigh h

end Text

end MatcherGen
