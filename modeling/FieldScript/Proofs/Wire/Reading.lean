import Mathlib.Algebra.Group.Nat.Defs
import FieldScript.Wire.Codec

/-! Readers against wire forms. `Reads` says that a reader takes exactly a wire form off the front
of any bytes; `Yields` bounds what a reader can give on bytes of any origin. Both pass through every
way to combine readers, so a law of a type needs only those of its parts. -/
namespace FieldScript.Wire

variable {α β : Type}

def Reads (d : Decoder α) (bytes : Bytes) (a : α) : Prop :=
  ∀ rest, d (bytes ++ rest) = some (a, rest)

def Yields (d : Decoder α) (p : α → Prop) : Prop :=
  ∀ bytes a rest, d bytes = some (a, rest) → p a

theorem bind_eq_some {d : Decoder α} {f : α → Decoder β} {bytes rest : Bytes} {b : β} :
    (d >>= f) bytes = some (b, rest) ↔
      ∃ a middle, d bytes = some (a, middle) ∧ f a middle = some (b, rest) := by
  simp only [bind, StateT.bind, Option.bind_eq_some_iff, Prod.exists]

theorem pure_eq_some {a b : α} {bytes rest : Bytes} :
    (pure a : Decoder α) bytes = some (b, rest) ↔ a = b ∧ bytes = rest := by
  change some (a, bytes) = some (b, rest) ↔ _
  rw [Option.some.injEq, Prod.mk.injEq]

theorem Reads.pure (a : α) : Reads (pure a) [] a := by
  intro rest
  rw [List.nil_append, pure_eq_some]
  exact ⟨rfl, rfl⟩

theorem Reads.bind {d : Decoder α} {f : α → Decoder β} {bytes more : Bytes} {a : α} {b : β}
    (h : Reads d bytes a) (h' : Reads (f a) more b) : Reads (d >>= f) (bytes ++ more) b := by
  intro rest
  rw [List.append_assoc, bind_eq_some]
  exact ⟨a, more ++ rest, h (more ++ rest), h' rest⟩

theorem Reads.last {d : Decoder α} {f : α → β} {bytes : Bytes} {a : α} (h : Reads d bytes a) :
    Reads (d >>= fun x => Pure.pure (f x)) bytes (f a) := by
  have hbind := h.bind (f := fun x => Pure.pure (f x)) (Reads.pure (f a))
  rwa [List.append_nil] at hbind

theorem Yields.pure {p : α → Prop} {a : α} (h : p a) : Yields (pure a) p := by
  intro bytes b rest hb
  exact (pure_eq_some.mp hb).1 ▸ h

theorem yields_fail (p : α → Prop) : Yields fail p := by
  intro bytes a rest h
  cases h

theorem Yields.bind {d : Decoder α} {f : α → Decoder β} {p : α → Prop} {q : β → Prop}
    (h : Yields d p) (h' : ∀ a, p a → Yields (f a) q) : Yields (d >>= f) q := by
  intro bytes b rest hb
  obtain ⟨a, middle, ha, hb⟩ := bind_eq_some.mp hb
  exact h' a (h bytes a middle ha) middle b rest hb

theorem Yields.after {d : Decoder α} {f : α → Decoder β} {q : β → Prop}
    (h : ∀ a, Yields (f a) q) : Yields (d >>= f) q := by
  intro bytes b rest hb
  obtain ⟨a, middle, _, hb⟩ := bind_eq_some.mp hb
  exact h a middle b rest hb

theorem varint_ne_nil (n : Nat) : varint n ≠ [] := by
  rw [varint]
  split <;> simp

theorem length_varint_pos (n : Nat) : 0 < (varint n).length :=
  List.length_pos_iff.mpr (varint_ne_nil n)

theorem readVarintWithin_varint (more last n : Nat) (hlast : last < 128)
    (h : n < 128 ^ more * (last + 1)) (rest : Bytes) :
    readVarintWithin more last (varint n ++ rest) = some (n, rest) := by
  induction more generalizing n with
  | zero =>
    have hn : n < 128 := by omega
    have hle : n ≤ last := by omega
    have hbyte : (UInt8.ofNat n).toNat = n := by
      rw [UInt8.toNat_ofNat']
      omega
    rw [varint, if_pos hn]
    simp [readVarintWithin, hbyte, hle]
  | succ more ih =>
    rw [varint]
    by_cases hn : n < 128
    · have hbyte : (UInt8.ofNat n).toNat = n := by
        rw [UInt8.toNat_ofNat']
        omega
      rw [if_pos hn]
      simp [readVarintWithin, hbyte, hn]
    · have hbyte : (UInt8.ofNat (n % 128 + 128)).toNat = n % 128 + 128 := by
        rw [UInt8.toNat_ofNat']
        omega
      have hhigh : n / 128 < 128 ^ more * (last + 1) := by
        rw [Nat.div_lt_iff_lt_mul (by decide)]
        calc n < 128 ^ (more + 1) * (last + 1) := h
          _ = 128 ^ more * (last + 1) * 128 := by rw [Nat.pow_succ]; ac_rfl
      rw [if_neg hn]
      simp only [List.cons_append, readVarintWithin, hbyte, ih (n / 128) hhigh, Option.bind_eq_bind,
        Option.bind_some]
      rw [if_neg (by omega)]
      congr 2
      omega

theorem yields_readVarintWithin (more last : Nat) :
    Yields (readVarintWithin more last) (· < 128 ^ more * (last + 1)) := by
  intro bytes n rest h
  induction more generalizing bytes n with
  | zero =>
    cases bytes with
    | nil => simp [readVarintWithin] at h
    | cons b bytes =>
      simp only [readVarintWithin] at h
      split at h
      · cases h
        omega
      · cases h
  | succ more ih =>
    have hgrow : 128 ^ (more + 1) * (last + 1) = 128 * (128 ^ more * (last + 1)) := by
      rw [Nat.pow_succ]
      ac_rfl
    have hpos : 0 < 128 ^ more * (last + 1) :=
      Nat.mul_pos (Nat.pow_pos (by decide)) (Nat.succ_pos last)
    cases bytes with
    | nil => simp [readVarintWithin] at h
    | cons b bytes =>
      simp only [readVarintWithin, Option.bind_eq_bind] at h
      split at h
      · cases h
        omega
      · obtain ⟨⟨high, middle⟩, hread, h⟩ := Option.bind_eq_some_iff.mp h
        cases h
        have hhigh := ih bytes high hread
        have hbyte := b.toNat_lt
        omega

theorem reads_readTag {n : Nat} (h : n < 2 ^ 32) : Reads readTag (varint n) n :=
  fun rest => readVarintWithin_varint 4 0x0F n (by decide) h rest

theorem reads_readCount {n : Nat} (h : n < 2 ^ 64) : Reads readCount (varint n) n :=
  fun rest => readVarintWithin_varint 9 0x01 n (by decide) h rest

theorem yields_readCount : Yields readCount (· < 2 ^ 64) := yields_readVarintWithin 9 0x01

theorem reads_readCase {cases : List α} {a : α} {i : Nat} (h : cases[i]? = some a)
    (hi : i < 2 ^ 32) : Reads (readCase cases) (varint i) a := by
  intro rest
  rw [readCase, bind_eq_some]
  exact ⟨i, rest, reads_readTag hi rest, by simp only [h, pure_eq_some, and_self]⟩

theorem reads_take (bytes : Bytes) : Reads (take bytes.length) bytes bytes := by
  intro rest
  simp [take]

theorem yields_take (n : Nat) : Yields (take n) (·.length = n) := by
  intro bytes a rest h
  unfold take at h
  split at h
  · rename_i hle
    cases h
    exact List.length_take_of_le hle
  · cases h

theorem toList_loop (bytes : ByteArray) (i : Nat) (acc : List UInt8) :
    ByteArray.toList.loop bytes i acc = acc.reverse ++ bytes.data.toList.drop i := by
  unfold ByteArray.toList.loop
  split
  · rename_i h
    have hlt : i < bytes.data.toList.length := h
    rw [toList_loop bytes (i + 1), List.drop_eq_getElem_cons hlt]
    have hget : bytes.get! i = bytes.data.toList[i] := by
      change bytes.data[i]! = _
      rw [getElem!_pos bytes.data i h, Array.getElem_toList]
    simp [hget]
  · rename_i h
    have hle : bytes.data.toList.length ≤ i := Nat.le_of_not_lt h
    simp [List.drop_eq_nil_of_le hle]
termination_by bytes.size - i

theorem toList_eq (bytes : ByteArray) : bytes.toList = bytes.data.toList := by
  rw [ByteArray.toList, toList_loop, List.reverse_nil, List.nil_append, List.drop_zero]

theorem length_toList (bytes : ByteArray) : bytes.toList.length = bytes.size := by
  rw [toList_eq]
  rfl

theorem fromUTF8?_toUTF8 (s : String) :
    String.fromUTF8? ⟨s.toUTF8.toList.toArray⟩ = some s := by
  rw [toList_eq, Array.toArray_toList, String.toUTF8_eq_toByteArray, String.fromUTF8?,
    dif_pos s.isValidUTF8]
  rfl

theorem reads_readText {s : String} (h : s.utf8ByteSize < 2 ^ 64) :
    Reads readText (text s) s := by
  have hsize : s.toUTF8.size < 2 ^ 64 := h
  refine (reads_readCount hsize).bind ?_
  rw [← length_toList]
  intro rest
  rw [bind_eq_some]
  exact ⟨s.toUTF8.toList, rest, reads_take _ rest, by
    simp only [fromUTF8?_toUTF8, pure_eq_some, and_self]⟩

theorem yields_readText : Yields readText (·.utf8ByteSize < 2 ^ 64) := by
  refine yields_readCount.bind fun n hn => (yields_take n).bind fun bytes hbytes => ?_
  cases hs : String.fromUTF8? ⟨bytes.toArray⟩ with
  | none => exact yields_fail _
  | some s =>
    refine Yields.pure ?_
    unfold String.fromUTF8? at hs
    split at hs
    · cases hs
      simpa [String.fromUTF8, ← String.size_toByteArray, ByteArray.size, hbytes] using hn
    · cases hs

theorem length_lowBytes (count value : Nat) : (lowBytes count value).length = count := by
  induction count generalizing value with
  | zero => rfl
  | succ count ih => simp [lowBytes, ih]

theorem ofLowBytes_lowBytes (count value : Nat) :
    ofLowBytes (lowBytes count value) = value % 256 ^ count := by
  induction count generalizing value with
  | zero => simp [lowBytes, ofLowBytes, Nat.mod_one]
  | succ count ih =>
    have hfold : ofLowBytes (lowBytes (count + 1) value) =
        (UInt8.ofNat value).toNat + 256 * ofLowBytes (lowBytes count (value / 256)) := rfl
    have hpow : 256 ^ (count + 1) = 256 * 256 ^ count := Nat.pow_succ'
    rw [hfold, ih, UInt8.toNat_ofNat', hpow, Nat.mod_mul]

theorem reads_readNumber (x : Binary64) : Reads readNumber (number x) x := by
  have hlt : x.bits.toNat < 256 ^ 8 := x.bits.toNat_lt
  have hbits : UInt64.ofNat (ofLowBytes (lowBytes 8 x.bits.toNat)) = x.bits := by
    rw [ofLowBytes_lowBytes, Nat.mod_eq_of_lt hlt, UInt64.ofNat_toNat]
  have hread : Reads (take 8) (number x) (number x) := by
    have h := reads_take (number x)
    rwa [number, length_lowBytes] at h
  have hlast : Reads readNumber (number x)
      ⟨UInt64.ofNat (ofLowBytes (lowBytes 8 x.bits.toNat))⟩ := Reads.last hread
  rwa [hbits] at hlast

theorem reads_readTruth (b : Bool) : Reads readTruth (truth b) b := by
  cases b <;> exact fun rest => rfl

theorem reads_readTimes {item : Decoder α} {form : α → Bytes} (items : List α)
    (h : ∀ a ∈ items, Reads item (form a) a) :
    Reads (readTimes item items.length) (items.flatMap form) items := by
  induction items with
  | nil => exact Reads.pure []
  | cons a items ih =>
    have hitems := ih fun b hb => h b (List.mem_cons_of_mem a hb)
    rw [List.flatMap_cons]
    exact (h a List.mem_cons_self).bind hitems.last

theorem reads_readList {item : Decoder α} {form : α → Bytes} (items : List α)
    (hlength : items.length < 2 ^ 64) (h : ∀ a ∈ items, Reads item (form a) a) :
    Reads (readList item) (list form items) items :=
  (reads_readCount hlength).bind (reads_readTimes items h)

theorem yields_readTimes {item : Decoder α} {p : α → Prop} (h : Yields item p) (n : Nat) :
    Yields (readTimes item n) fun items => items.length = n ∧ ∀ a ∈ items, p a := by
  induction n with
  | zero => exact Yields.pure ⟨rfl, by simp⟩
  | succ n ih =>
    refine h.bind fun a ha => ih.bind fun items hitems => Yields.pure ?_
    exact ⟨by simp [hitems.1], List.forall_mem_cons.mpr ⟨ha, hitems.2⟩⟩

theorem yields_readList {item : Decoder α} {p : α → Prop} (h : Yields item p) :
    Yields (readList item) fun items => items.length < 2 ^ 64 ∧ ∀ a ∈ items, p a := by
  refine yields_readCount.bind fun n hn => ?_
  intro bytes items rest hitems
  obtain ⟨hlength, hall⟩ := yields_readTimes h n bytes items rest hitems
  exact ⟨hlength ▸ hn, hall⟩

end FieldScript.Wire
