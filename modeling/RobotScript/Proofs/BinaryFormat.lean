import Mathlib.Tactic
import RobotScript.Bytecode.Binary
import RobotScript.Proofs.TextFormat

/-!
# The binary format of code

A number has many forms as bytes, since a form may go on with groups of zeros. Of these the one that
is written is the shortest. Every form ends with its first byte whose high bit is clear, so what
follows the last number is never taken for a part of it, and bytes that are cut off are noticed
wherever the cut falls.

## Main definitions

* `Varint.Form` — the bytes are a form of this number.

## Main results

* `Varint.decodeWithin_eq_ok_iff`: exactly the forms are read.
* `Varint.Form.decodeWithin_of_cut`: a form that is cut off is never read.
* `Varint.form_encode`, `Varint.Form.length_encode_le`: what is written is a form, and no form is
  shorter.
* `Bytecode.ofBytes_eq_ok_iff`: code is read exactly from forms of its length and of its numbers.
* `Bytecode.toBytes_self_delimiting`: **the bytes of code say where they end, and no shorter bytes
  are read as this code**.
-/

namespace RobotScript

/-- A proper beginning of two lists in a row ends in the first, or after it in the second. -/
theorem proper_beginning_append {α : Type} {cut first second : List α}
    (h : cut <+: first ++ second) (hne : cut ≠ first ++ second) :
    (cut <+: first ∧ cut ≠ first) ∨ ∃ later, cut = first ++ later ∧ later <+: second ∧
      later ≠ second := by
  rcases List.prefix_or_prefix_of_prefix h (List.prefix_append first second) with hcut | hfirst
  · by_cases heq : cut = first
    · refine .inr ⟨[], by simp [heq], List.nil_prefix, ?_⟩
      rintro rfl
      exact hne (by simp [heq])
    · exact .inl ⟨hcut, heq⟩
  · obtain ⟨later, rfl⟩ := hfirst
    refine .inr ⟨later, rfl, (List.prefix_append_right_inj first).mp h, ?_⟩
    rintro rfl
    exact hne rfl

namespace Varint

/-! ### One number -/

/-- The bytes are a form of the number in at most `limit` bytes, of which the last that `limit`
allows is at most one. The form may be longer than it has to be. -/
inductive Form : Nat → List UInt8 → Nat → Prop
  /-- The last byte has its high bit clear. -/
  | last {limit : Nat} {b : UInt8} :
      b < 128 → (limit = 0 → b ≤ 1) → Form (limit + 1) [b] b.toNat
  /-- Every other byte has its high bit set, and seven bits of the number. -/
  | more {limit high : Nat} {b : UInt8} {form : List UInt8} :
      128 ≤ b → Form limit form high → Form (limit + 1) (b :: form) (b.toNat - 128 + 128 * high)

section

variable {limit n : Nat} {b : UInt8} {form bytes rest cut : List UInt8}

theorem decodeWithin_last (hb : b < 128) (hone : limit = 0 → b ≤ 1) :
    decodeWithin (limit + 1) (b :: rest) = .ok (b.toNat, rest) := by
  have hfits : ¬ (limit = 0 ∧ 1 < b) := fun h => absurd h.2 (UInt8.not_lt.mpr (hone h.1))
  rw [decodeWithin, if_pos hb, if_neg hfits]

theorem decodeWithin_more (hb : 128 ≤ b) :
    decodeWithin (limit + 1) (b :: rest) =
      (decodeWithin limit rest).map fun r => (b.toNat - 128 + 128 * r.1, r.2) := by
  rw [decodeWithin, if_neg (UInt8.not_lt.mpr hb)]
  cases decodeWithin limit rest with
  | error e => rfl
  | ok r => rfl

/-- A form is read as its number, whatever follows. -/
theorem Form.decodeWithin_append (h : Form limit form n) (rest : List UInt8) :
    decodeWithin limit (form ++ rest) = .ok (n, rest) := by
  induction h with
  | last hb hone => exact decodeWithin_last hb hone
  | more hb _ ih =>
      rw [List.cons_append, decodeWithin_more hb, ih]
      rfl

/-- Only forms are read. -/
theorem exists_form_of_decodeWithin (h : decodeWithin limit bytes = .ok (n, rest)) :
    ∃ form, bytes = form ++ rest ∧ Form limit form n := by
  induction limit generalizing bytes n with
  | zero => simp [decodeWithin] at h
  | succ limit ih =>
      cases bytes with
      | nil => simp [decodeWithin] at h
      | cons b tail =>
          by_cases hb : b < 128
          · rw [decodeWithin, if_pos hb] at h
            split_ifs at h with hlarge
            obtain ⟨rfl, rfl⟩ := Prod.mk.inj (Except.ok.inj h)
            exact ⟨[b], rfl, .last hb fun hzero => UInt8.not_lt.mp fun hone => hlarge ⟨hzero, hone⟩⟩
          · have hb := UInt8.not_lt.mp hb
            rw [decodeWithin_more hb] at h
            cases hrest : decodeWithin limit tail with
            | error e => simp [hrest, Except.map] at h
            | ok r =>
                obtain ⟨high, after⟩ := r
                rw [hrest] at h
                obtain ⟨rfl, rfl⟩ := Prod.mk.inj (Except.ok.inj h)
                obtain ⟨form, rfl, hform⟩ := ih hrest
                exact ⟨b :: form, rfl, .more hb hform⟩

/-- **Exactly the forms are read**, each as its number. -/
theorem decodeWithin_eq_ok_iff :
    decodeWithin limit bytes = .ok (n, rest) ↔
      ∃ form, bytes = form ++ rest ∧ Form limit form n := by
  constructor
  · exact exists_form_of_decodeWithin
  · rintro ⟨form, rfl, hform⟩
    exact hform.decodeWithin_append rest

/-- A form that is cut off is not read, and the reason is the end of the bytes: what is left has
only bytes after which another is due. -/
theorem Form.decodeWithin_of_cut (h : Form limit form n) (hcut : cut <+: form) (hne : cut ≠ form) :
    decodeWithin limit cut = .error .endOfInput := by
  induction h generalizing cut with
  | last =>
      rcases List.prefix_cons_iff.mp hcut with rfl | ⟨later, rfl, hlater⟩
      · rfl
      · exact absurd (by rw [List.prefix_nil.mp hlater]) hne
  | more hb _ ih =>
      rcases List.prefix_cons_iff.mp hcut with rfl | ⟨later, rfl, hlater⟩
      · rfl
      · rw [decodeWithin_more hb, ih hlater fun heq => hne (by rw [heq])]
        rfl

/-- A number that has a form has as many bits as the limit has room for. -/
theorem Form.lt (h : Form (limit + 1) form n) : n < 2 * 128 ^ limit := by
  induction limit generalizing form n with
  | zero =>
      cases h with
      | last _ hone =>
          exact Nat.lt_succ_of_le (UInt8.le_iff_toNat_le.mp (hone rfl))
      | more _ hform => cases hform
  | succ limit ih =>
      rw [pow_succ]
      cases h with
      | last hb _ =>
          rename_i b _
          have hbyte : b.toNat < 128 := UInt8.lt_iff_toNat_lt.mp hb
          have hroom : 1 ≤ 128 ^ limit := Nat.one_le_pow limit 128 (by omega)
          omega
      | more _ hform =>
          rename_i high b tail _
          have hbyte := b.toNat_lt
          have hhigh := ih hform
          omega

end

/-! ### The form that is written -/

theorem encode_of_lt {n : Nat} (h : n < 128) : encode n = [n.toUInt8] := by
  rw [encode, if_pos h]

theorem encode_of_le {n : Nat} (h : 128 ≤ n) :
    encode n = (n % 128 + 128).toUInt8 :: encode (n / 128) := by
  rw [encode, if_neg (Nat.not_lt.mpr h)]

/-- A number of seven bits is written as one byte, which is a form of it. -/
theorem form_encode_of_lt {limit n : Nat} (hn : n < 128) (hone : limit = 0 → n ≤ 1) :
    Form (limit + 1) (encode n) n := by
  have hbyte : n.toUInt8.toNat = n := UInt8.toNat_ofNat_of_lt' (show n < 256 by omega)
  have hform : Form (limit + 1) [n.toUInt8] n.toUInt8.toNat :=
    .last (UInt8.lt_iff_toNat_lt.mpr (by rwa [hbyte]))
      fun hzero => UInt8.le_iff_toNat_le.mpr (by rw [hbyte]; exact hone hzero)
  rwa [hbyte, ← encode_of_lt hn] at hform

/-- What is written is a form, if the number has as few bits as the limit has room for. -/
theorem form_encode {limit n : Nat} (h : n < 2 * 128 ^ limit) : Form (limit + 1) (encode n) n := by
  induction limit generalizing n with
  | zero => exact form_encode_of_lt (by omega) (by omega)
  | succ limit ih =>
      rw [pow_succ] at h
      rcases Nat.lt_or_ge n 128 with hn | hn
      · exact form_encode_of_lt hn (by simp)
      · have hbyte : (n % 128 + 128).toUInt8.toNat = n % 128 + 128 :=
          UInt8.toNat_ofNat_of_lt' (show n % 128 + 128 < 256 by omega)
        have hform : Form (limit + 2) ((n % 128 + 128).toUInt8 :: encode (n / 128))
            ((n % 128 + 128).toUInt8.toNat - 128 + 128 * (n / 128)) :=
          .more (UInt8.le_iff_toNat_le.mpr (by rw [hbyte]; exact Nat.le_add_left 128 _))
            (ih (by omega))
        rwa [hbyte, ← encode_of_le hn, Nat.add_sub_cancel, Nat.mod_add_div] at hform

/-- No form of a number is shorter than the one that is written. -/
theorem Form.length_encode_le {limit n : Nat} {form : List UInt8} (h : Form limit form n) :
    (encode n).length ≤ form.length := by
  induction h with
  | last hb _ =>
      rw [encode_of_lt (by simpa using UInt8.lt_iff_toNat_lt.mp hb)]
      exact Nat.le_refl 1
  | more hb _ ih =>
      rename_i limit high b form _
      have hlow : b.toNat - 128 < 128 := by
        have := b.toNat_lt
        omega
      -- below 128 the groups after the first are zeros, of which none is written
      rcases Nat.lt_or_ge (b.toNat - 128 + 128 * high) 128 with hn | hn
      · rw [encode_of_lt hn]
        exact Nat.le_add_left 1 form.length
      · have hhigh : (b.toNat - 128 + 128 * high) / 128 = high := by omega
        rw [encode_of_le hn, hhigh]
        exact Nat.succ_le_succ ih

/-! ### Numbers in a row -/

theorem decodeMany_succ_of_ok {count n : Nat} {bytes rest : List UInt8}
    (h : decode bytes = .ok (n, rest)) :
    decodeMany (count + 1) bytes = (decodeMany count rest).map (n :: ·) := by
  rw [decodeMany, h]
  cases hlater : decodeMany count rest with
  | error e => simp [bind, Except.bind, hlater, Except.map]
  | ok later => simp [bind, Except.bind, hlater, Except.map, pure, Except.pure]

theorem decodeMany_succ_of_error {count : Nat} {bytes : List UInt8} {e : BinaryError}
    (h : decode bytes = .error e) : decodeMany (count + 1) bytes = .error e := by
  rw [decodeMany, h]
  rfl

section

variable {forms : List (List UInt8)} {values : List Nat}

/-- Forms in a row are read as their numbers, whatever follows. -/
theorem decodeMany_append (h : List.Forall₂ (Form 10) forms values) (rest : List UInt8) :
    decodeMany values.length (forms.flatten ++ rest) = .ok values := by
  induction h with
  | nil => rfl
  | cons hform _ ih =>
      rw [List.flatten_cons, List.append_assoc, List.length_cons,
        decodeMany_succ_of_ok (hform.decodeWithin_append _), ih]
      rfl

/-- Only forms in a row are read, as many as are due. -/
theorem exists_forms_of_decodeMany {count : Nat} {bytes : List UInt8}
    (h : decodeMany count bytes = .ok values) :
    values.length = count ∧
      ∃ forms rest, bytes = List.flatten forms ++ rest ∧ List.Forall₂ (Form 10) forms values := by
  induction count generalizing bytes values with
  | zero =>
      obtain rfl := Except.ok.inj h
      exact ⟨rfl, [], bytes, rfl, .nil⟩
  | succ count ih =>
      cases hfirst : decode bytes with
      | error e => simp [decodeMany_succ_of_error hfirst] at h
      | ok r =>
          obtain ⟨n, tail⟩ := r
          rw [decodeMany_succ_of_ok hfirst] at h
          cases hlater : decodeMany count tail with
          | error e => simp [hlater, Except.map] at h
          | ok later =>
              rw [hlater] at h
              obtain rfl := Except.ok.inj h
              obtain ⟨form, rfl, hform⟩ := decodeWithin_eq_ok_iff.mp hfirst
              obtain ⟨hlength, forms, rest, rfl, hforms⟩ := ih hlater
              exact ⟨by rw [List.length_cons, hlength], form :: forms, rest,
                by rw [List.flatten_cons, List.append_assoc], .cons hform hforms⟩

/-- Forms in a row that are cut off are not read, wherever the cut falls. -/
theorem decodeMany_of_cut (h : List.Forall₂ (Form 10) forms values) {cut : List UInt8}
    (hcut : cut <+: forms.flatten) (hne : cut ≠ forms.flatten) :
    decodeMany values.length cut = .error .endOfInput := by
  induction h generalizing cut with
  | nil => exact absurd (List.prefix_nil.mp hcut) hne
  | cons hform _ ih =>
      rw [List.flatten_cons] at hcut hne
      rw [List.length_cons]
      rcases proper_beginning_append hcut hne with ⟨hin, hin'⟩ | ⟨later, rfl, hlater, hlater'⟩
      · exact decodeMany_succ_of_error (hform.decodeWithin_of_cut hin hin')
      · rw [decodeMany_succ_of_ok (hform.decodeWithin_append later), ih hlater hlater']
        rfl

/-- Numbers of 64 bits are written as forms in a row. -/
theorem forms_encode (h : ∀ n ∈ values, n < wordBound) :
    List.Forall₂ (Form 10) (values.map encode) values := by
  rw [List.forall₂_map_left_iff, List.forall₂_same]
  exact fun n hn => form_encode (h n hn)

/-- Forms in a row are together no shorter than what is written for their numbers. -/
theorem length_flatMap_encode_le (h : List.Forall₂ (Form 10) forms values) :
    (values.flatMap encode).length ≤ forms.flatten.length := by
  induction h with
  | nil => exact Nat.le_refl 0
  | cons hform _ ih =>
      rw [List.flatMap_cons, List.flatten_cons, List.length_append, List.length_append]
      exact Nat.add_le_add hform.length_encode_le ih

/-- Numbers that have forms have 64 bits. -/
theorem lt_wordBound_of_forms (h : List.Forall₂ (Form 10) forms values) :
    ∀ n ∈ values, n < wordBound := by
  induction h with
  | nil => simp
  | cons hform _ ih => exact List.forall_mem_cons.mpr ⟨hform.lt, ih⟩

end

end Varint

namespace Bytecode

open Varint

/-! ### Code -/

theorem ofBytes_of_ok {count : Nat} {bytes rest : List UInt8}
    (h : Varint.decode bytes = .ok (count, rest)) :
    ofBytes bytes = (decodeMany count rest).map Bytecode.mk := by
  rw [ofBytes, h]
  cases hvalues : decodeMany count rest with
  | error e => simp [bind, Except.bind, hvalues, Except.map]
  | ok values => simp [bind, Except.bind, hvalues, Except.map, pure, Except.pure]

theorem ofBytes_of_error {bytes : List UInt8} {e : BinaryError}
    (h : Varint.decode bytes = .error e) : ofBytes bytes = .error e := by
  rw [ofBytes, h]
  rfl

/-- **Code is read exactly from forms of its length and of its numbers**, in this order and with
anything after them. -/
theorem ofBytes_eq_ok_iff {bytes : List UInt8} {bc : Bytecode} :
    ofBytes bytes = .ok bc ↔ ∃ forms rest, bytes = List.flatten forms ++ rest ∧
      List.Forall₂ (Form 10) forms (bc.size :: bc.values) := by
  constructor
  · intro h
    cases hcount : Varint.decode bytes with
    | error e => simp [ofBytes_of_error hcount] at h
    | ok r =>
        obtain ⟨count, tail⟩ := r
        rw [ofBytes_of_ok hcount] at h
        cases hvalues : decodeMany count tail with
        | error e => simp [hvalues, Except.map] at h
        | ok values =>
            rw [hvalues] at h
            obtain rfl := Except.ok.inj h
            obtain ⟨form, rfl, hform⟩ := decodeWithin_eq_ok_iff.mp hcount
            obtain ⟨rfl, forms, rest, rfl, hforms⟩ := exists_forms_of_decodeMany hvalues
            exact ⟨form :: forms, rest, by rw [List.flatten_cons, List.append_assoc],
              .cons hform hforms⟩
  · rintro ⟨_, rest, rfl, hforms⟩
    cases hforms with
    | cons hform hvalues =>
        rw [List.flatten_cons, List.append_assoc, ofBytes_of_ok (hform.decodeWithin_append _), size,
          decodeMany_append hvalues]
        rfl

/-- Forms of the length and of the numbers that are cut off are not read as code. -/
theorem ofBytes_of_cut {bc : Bytecode} {forms : List (List UInt8)} {cut : List UInt8}
    (h : List.Forall₂ (Form 10) forms (bc.size :: bc.values)) (hcut : cut <+: forms.flatten)
    (hne : cut ≠ forms.flatten) : ofBytes cut = .error .endOfInput := by
  cases h with
  | cons hform hvalues =>
      rw [List.flatten_cons] at hcut hne
      rcases proper_beginning_append hcut hne with ⟨hin, hin'⟩ | ⟨later, rfl, hlater, hlater'⟩
      · exact ofBytes_of_error (hform.decodeWithin_of_cut hin hin')
      · rw [ofBytes_of_ok (hform.decodeWithin_append later), size,
          decodeMany_of_cut hvalues hlater hlater']
        rfl

/-- The bytes of code are forms of its length and of its numbers. -/
theorem Fits.forms {bc : Bytecode} (h : bc.Fits) :
    List.Forall₂ (Form 10) ((bc.size :: bc.values).map encode) (bc.size :: bc.values) :=
  forms_encode (List.forall_mem_cons.mpr ⟨h.size, h.values⟩)

theorem toBytes_eq_flatten (bc : Bytecode) :
    bc.toBytes = ((bc.size :: bc.values).map encode).flatten := by
  rw [toBytes, List.flatMap_def]

/-- Code that is read fits the machine, and its bytes are no longer than those that were read. -/
theorem fits_and_length_toBytes_le {bytes : List UInt8} {bc : Bytecode}
    (h : ofBytes bytes = .ok bc) : bc.Fits ∧ bc.toBytes.length ≤ bytes.length := by
  obtain ⟨forms, rest, rfl, hforms⟩ := ofBytes_eq_ok_iff.mp h
  obtain ⟨hsize, hvalues⟩ := List.forall_mem_cons.mp (lt_wordBound_of_forms hforms)
  refine ⟨⟨hsize, hvalues⟩, ?_⟩
  calc bc.toBytes.length
      ≤ forms.flatten.length := length_flatMap_encode_le hforms
    _ ≤ (forms.flatten ++ rest).length := by rw [List.length_append]; omega

/-- **The bytes of code say where they end, and are the shortest.** The code is read back from them
whatever follows. No proper beginning of them is read, and the reason is the end of the bytes. Any
bytes from which code is read are at least as long as the bytes of this code, which fits the
machine. -/
theorem toBytes_self_delimiting :
    (∀ bc : Bytecode, bc.Fits →
      (∀ rest, ofBytes (bc.toBytes ++ rest) = .ok bc) ∧
      ∀ cut, cut <+: bc.toBytes → cut ≠ bc.toBytes → ofBytes cut = .error .endOfInput) ∧
    ∀ bytes bc, ofBytes bytes = .ok bc → bc.Fits ∧ bc.toBytes.length ≤ bytes.length := by
  refine ⟨fun bc hfits => ⟨fun rest => ?_, fun cut hcut hne => ?_⟩,
    fun _ _ => fits_and_length_toBytes_le⟩
  · exact ofBytes_eq_ok_iff.mpr ⟨_, rest, by rw [toBytes_eq_flatten], hfits.forms⟩
  · rw [toBytes_eq_flatten] at hcut hne
    exact ofBytes_of_cut hfits.forms hcut hne

/-- The largest number takes ten bytes; cut off in its middle it is not read. Zero in two bytes is
read, and is written in one. -/
theorem toBytes_self_delimiting_largest :
    toBytes ⟨[300, 18446744073709551615]⟩ =
      [2, 172, 2, 255, 255, 255, 255, 255, 255, 255, 255, 255, 1] ∧
    ofBytes [2, 172, 2, 255, 255, 255, 255, 255, 255, 255, 255, 255, 1, 7] =
      .ok ⟨[300, 18446744073709551615]⟩ ∧
    ofBytes [2, 172, 2, 255, 255] = .error .endOfInput ∧
    ofBytes [1, 128, 0] = .ok ⟨[0]⟩ ∧ (toBytes ⟨[0]⟩).length ≤ [1, 128, 0].length := by
  have hfits : Fits ⟨[300, 18446744073709551615]⟩ := ⟨by decide, by decide⟩
  have hbytes : toBytes ⟨[300, 18446744073709551615]⟩ =
      [2, 172, 2, 255, 255, 255, 255, 255, 255, 255, 255, 255, 1] := by cbv
  have hzero : ofBytes [1, 128, 0] = .ok ⟨[0]⟩ := by cbv
  obtain ⟨happend, hcut⟩ := toBytes_self_delimiting.1 _ hfits
  rw [hbytes] at happend hcut
  exact ⟨hbytes, happend [7], hcut _ (by decide) (by decide), hzero,
    (toBytes_self_delimiting.2 _ _ hzero).2⟩

end Bytecode

end RobotScript
