import PiJade.DescriptorKeys
import PiJade.Slip39Recovery

/-!
The cipher of the master secret in memory (`main/slip39.c`). All rounds work in the same buffers: the
number of the round is written before the passphrase, the right half behind the prefix of the salt, and
the derived key becomes the next right half where it stands.
-/
namespace PiJade.Slip39.Memory
open DescriptorText.Memory (Exit put putAll get slice put_spec put_over putAll_spec putAll_start slice_spec get_spec)
set_option linter.unusedSimpArgs false

def SALT_PREFIX_MAX_LEN : Nat := CUSTOMIZATION_ORIG.length + 2
def PBKDF2_HMAC_SHA256_LEN : Nat := 32

/-- `JADE_ASSERT`. -/
def ensure (holds : Bool) : Except Exit Unit := if holds then .ok () else .error .abort

/-- The buffers of `decrypt_ems`. -/
structure Buffers where
  pass : Vector UInt8 (1 + PASSPHRASE_MAX_LEN)
  salt : Vector UInt8 (SALT_PREFIX_MAX_LEN + SLIP39_MASTER_SECRET_MAX / 2)
  half_l : Vector UInt8 (SLIP39_MASTER_SECRET_MAX / 2)
  half_r : Vector UInt8 (SLIP39_MASTER_SECRET_MAX / 2)
  f : Vector UInt8 PBKDF2_HMAC_SHA256_LEN

/-- `for (i = 0; i < half; ++i) f[i] ^= half_l[i]`, with so many bytes left. -/
def xor_into (half_l : Vector UInt8 (SLIP39_MASTER_SECRET_MAX / 2)) :
    Nat → Nat → Vector UInt8 PBKDF2_HMAC_SHA256_LEN → Except Exit (Vector UInt8 PBKDF2_HMAC_SHA256_LEN)
  | 0, _, f => return f
  | left + 1, i, f => do
    let own ← get f i
    let other ← get half_l i
    let f ← put f i (own ^^^ other)
    xor_into half_l left (i + 1) f

section
variable (crypto : Crypto) (passphrase_len salt_prefix_len half : Nat) (cost : UInt32)

/-- The body of the loop over the rounds. -/
def one_round (round : Nat) (s : Buffers) : Except Exit Buffers := do
  let pass ← put s.pass 0 (UInt8.ofNat round)
  let right ← slice s.half_r half
  let salt ← putAll s.salt salt_prefix_len right
  let password ← slice pass (1 + passphrase_len)
  let salted ← slice salt (salt_prefix_len + half)
  let f ← xor_into s.half_l half 0 (crypto.pbkdf2_hmac_sha256 password salted cost)
  let half_l ← putAll s.half_l 0 right
  let left ← slice f half
  let half_r ← putAll s.half_r 0 left
  return { pass, salt, half_l, half_r, f }

/-- `for (round = ROUND_COUNT; round > 0; --round)`. -/
def all_rounds : Nat → Buffers → Except Exit Buffers
  | 0, s => return s
  | round + 1, s => do
    let s ← one_round crypto passphrase_len salt_prefix_len half cost round s
    all_rounds round s

end

/-- The bytes of the salt before the half, and how many. -/
def start_salt (identifier : UInt16) (extendable : Bool)
    (salt : Vector UInt8 (SALT_PREFIX_MAX_LEN + SLIP39_MASTER_SECRET_MAX / 2)) :
    Except Exit (Vector UInt8 (SALT_PREFIX_MAX_LEN + SLIP39_MASTER_SECRET_MAX / 2) × Nat) :=
  if !extendable then do
    let salt ← putAll salt 0 CUSTOMIZATION_ORIG
    let salt ← put salt CUSTOMIZATION_ORIG.length (identifier >>> 8).toUInt8
    let salt ← put salt (CUSTOMIZATION_ORIG.length + 1) (identifier &&& 0xFF).toUInt8
    return (salt, SALT_PREFIX_MAX_LEN)
  else return (salt, 0)

/-- Whatever the buffers hold before, the master secret goes into a buffer of the length of the ciphertext. -/
def decrypt_ems (crypto : Crypto) (start : Buffers) (ems passphrase : Bytes) (exponent : Nat) (identifier : UInt16)
    (extendable : Bool) (master_secret : Vector UInt8 ems.length) : Except Exit (Vector UInt8 ems.length) := do
  ensure (ems.length ≠ 0 && ems.length % 2 = 0 && ems.length ≤ SLIP39_MASTER_SECRET_MAX)
  let half := ems.length / 2
  ensure (passphrase.length ≤ PASSPHRASE_MAX_LEN)
  let (salt, salt_prefix_len) ← start_salt identifier extendable start.salt
  let pass ← putAll start.pass 1 passphrase
  let half_l ← putAll start.half_l 0 (ems.take half)
  let half_r ← putAll start.half_r 0 (ems.drop half)
  let s ← all_rounds crypto passphrase.length salt_prefix_len half (cost exponent) ROUND_COUNT.toNat
    { pass, salt, half_l, half_r, f := start.f }
  let right ← slice s.half_r half
  let master_secret ← putAll master_secret 0 right
  let left ← slice s.half_l half
  putAll master_secret half left

/-! ### The buffers -/

theorem ok_bind {α β : Type} (a : α) (f : α → Except Exit β) : (Except.ok a >>= f) = f a := rfl

theorem xor_into_spec {half_l : Vector UInt8 (SLIP39_MASTER_SECRET_MAX / 2)} {before others : Bytes}
    (holds : before ++ others <+: half_l.toList) {f : Vector UInt8 PBKDF2_HMAC_SHA256_LEN} {front own rest : Bytes}
    (layout : f.toList = front ++ (own ++ rest)) (places : before.length = front.length) (same : own.length = others.length) :
    ∃ later, xor_into half_l own.length front.length f = .ok later ∧ later.toList = front ++ (xor own others ++ rest) := by
  induction own generalizing before others f front with
  | nil =>
    cases others with
    | nil => exact ⟨f, rfl, layout⟩
    | cons _ _ => cases same
  | cons a own ih =>
    cases others with
    | nil => cases same
    | cons b others =>
      have own_byte : get f front.length = .ok a := by
        refine get_spec (List.prefix_rfl : f.toList <+: f.toList) ?_
        rw [layout, List.getElem?_append_right (Nat.le_refl _), Nat.sub_self]
        rfl
      have other_byte : get half_l front.length = .ok b := by
        refine get_spec holds ?_
        rw [← places, List.getElem?_append_right (Nat.le_refl _), Nat.sub_self]
        rfl
      obtain ⟨next, stored, continued⟩ := put_over layout (a ^^^ b)
      have append : front ++ (a ^^^ b) :: (own ++ rest) = front ++ [a ^^^ b] ++ (own ++ rest) := by simp
      have length : (front ++ [a ^^^ b]).length = front.length + 1 := by simp
      obtain ⟨later, others_done, whole⟩ := @ih (before ++ [b]) others
        (by rwa [List.append_assoc, List.singleton_append]) next (front ++ [a ^^^ b]) (continued.trans append)
        (by rw [List.length_append, List.length_append, places]; rfl) (Nat.succ.inj same)
      refine ⟨later, ?_, ?_⟩
      · rw [List.length_cons, xor_into, own_byte, ok_bind, other_byte, ok_bind, stored, ok_bind, ← length, others_done]
      · rw [whole, List.append_assoc]
        rfl

/-! ### The rounds -/

section
variable {crypto : Crypto} {passphrase salt left right : Bytes} {half : Nat} {cost : UInt32}

/-- What the buffers hold between two rounds. -/
structure Holds (passphrase salt left right : Bytes) (half : Nat) (s : Buffers) : Prop where
  pass : ∃ round rest, s.pass.toList = round :: (passphrase ++ rest)
  salt : salt <+: s.salt.toList
  half_l : left <+: s.half_l.toList
  half_r : right <+: s.half_r.toList
  left_length : left.length = half
  right_length : right.length = half

theorem slice_length {size : Nat} {buffer : Vector UInt8 size} {front : Bytes} (holds : front <+: buffer.toList) {len : Nat}
    (length : front.length = len) : slice buffer len = .ok front := by
  rw [← length]
  exact slice_spec holds

/-- One round does in place what the round function does. -/
theorem one_round_spec {s : Buffers} (holds : Holds passphrase salt left right half s)
    (short : salt.length ≤ SALT_PREFIX_MAX_LEN) (small : half ≤ SLIP39_MASTER_SECRET_MAX / 2) (round : Nat) :
    ∃ later, one_round crypto passphrase.length salt.length half cost round s = .ok later ∧
      Holds passphrase salt right (xor (round_function crypto passphrase salt cost half (UInt8.ofNat round) right) left) half
        later := by
  obtain ⟨old, rest, layout⟩ := holds.pass
  have left_length := holds.left_length
  have right_length := holds.right_length
  obtain ⟨pass, numbered, password⟩ := @put_over _ _ [] _ old layout (UInt8.ofNat round)
  obtain ⟨salted, copied, prefixed⟩ := @putAll_spec _ s.salt salt right holds.salt (by rw [right_length]; omega)
  have password_read : slice pass (1 + passphrase.length) = .ok (UInt8.ofNat round :: passphrase) := by
    refine @slice_length _ pass (UInt8.ofNat round :: passphrase) ⟨rest, ?_⟩ _ (by rw [List.length_cons, Nat.add_comm])
    rw [password]
    rfl
  have salt_read : slice salted (salt.length + half) = .ok (salt ++ right) :=
    slice_length prefixed (by rw [List.length_append, right_length])
  have key_length : (crypto.pbkdf2_hmac_sha256 (UInt8.ofNat round :: passphrase) (salt ++ right) cost).toList.length = 32 :=
    Vector.length_toList
  have enough : half ≤ 32 := Nat.le_trans small (by decide)
  have own_length : (round_function crypto passphrase salt cost half (UInt8.ofNat round) right).length = half := by
    rw [round_function, List.length_take, key_length]
    omega
  obtain ⟨f, mixed, mixture⟩ := @xor_into_spec s.half_l [] left holds.half_l
    (crypto.pbkdf2_hmac_sha256 (UInt8.ofNat round :: passphrase) (salt ++ right) cost) []
    (round_function crypto passphrase salt cost half (UInt8.ofNat round) right)
    ((crypto.pbkdf2_hmac_sha256 (UInt8.ofNat round :: passphrase) (salt ++ right) cost).toList.drop half)
    (List.take_append_drop half _).symm rfl (own_length.trans left_length.symm)
  have mixed_length : (xor (round_function crypto passphrase salt cost half (UInt8.ofNat round) right) left).length = half :=
    (xor_length (own_length.trans left_length.symm)).trans left_length
  obtain ⟨half_l, moved, is_right⟩ := @putAll_start _ s.half_l right (by rw [right_length]; exact small)
  obtain ⟨half_r, taken, is_mixed⟩ := @putAll_start _ s.half_r
    (xor (round_function crypto passphrase salt cost half (UInt8.ofNat round) right) left) (by rw [mixed_length]; exact small)
  rw [own_length] at mixed
  refine ⟨⟨pass, salted, half_l, half_r, f⟩, ?_, ⟨⟨_, rest, password⟩, ?_, is_right, is_mixed, right_length, mixed_length⟩⟩
  · have mixed_read := @slice_length _ f (xor (round_function crypto passphrase salt cost half (UInt8.ofNat round) right) left)
      ⟨_, mixture.symm⟩ half mixed_length
    rw [one_round, show put s.pass 0 _ = _ from numbered, ok_bind, slice_length holds.half_r right_length, ok_bind, copied, ok_bind,
      password_read, ok_bind, salt_read, ok_bind, show xor_into s.half_l half 0 _ = _ from mixed, ok_bind, moved, ok_bind,
      mixed_read, ok_bind, taken]
    rfl
  · exact (List.prefix_append salt right).trans prefixed

/-- The rounds that the loop goes through, the last one first. -/
def countdown : Nat → List UInt8
  | 0 => []
  | round + 1 => UInt8.ofNat round :: countdown round

theorem all_rounds_spec (short : salt.length ≤ SALT_PREFIX_MAX_LEN) (small : half ≤ SLIP39_MASTER_SECRET_MAX / 2) {round : Nat}
    {s : Buffers} (holds : Holds passphrase salt left right half s) :
    ∃ later, all_rounds crypto passphrase.length salt.length half cost round s = .ok later ∧
      Holds passphrase salt (rounds (round_function crypto passphrase salt cost half) (countdown round) (left, right)).1
        (rounds (round_function crypto passphrase salt cost half) (countdown round) (left, right)).2 half later := by
  induction round generalizing s left right with
  | zero => exact ⟨s, rfl, holds⟩
  | succ round ih =>
    obtain ⟨next, one, continued⟩ := @one_round_spec crypto _ _ _ _ _ cost _ holds short small round
    obtain ⟨later, others, whole⟩ := ih continued
    refine ⟨later, ?_, whole⟩
    rw [all_rounds, one, ok_bind, others]

end

/-! ### Decryption -/

theorem leading_salt_length (identifier : UInt16) (extendable : Bool) :
    (leading_salt identifier extendable).length ≤ SALT_PREFIX_MAX_LEN := by
  cases extendable with
  | false => exact Nat.le_refl 8
  | true => exact Nat.zero_le _

theorem start_salt_spec (identifier : UInt16) (extendable : Bool)
    (salt : Vector UInt8 (SALT_PREFIX_MAX_LEN + SLIP39_MASTER_SECRET_MAX / 2)) :
    ∃ later, start_salt identifier extendable salt = .ok (later, (leading_salt identifier extendable).length) ∧
      leading_salt identifier extendable <+: later.toList := by
  cases extendable with
  | true => exact ⟨salt, rfl, List.nil_prefix⟩
  | false =>
    obtain ⟨first, named, name⟩ := @putAll_start _ salt CUSTOMIZATION_ORIG (by decide)
    obtain ⟨second, high, front⟩ := put_spec name (by decide) (identifier >>> 8).toUInt8
    obtain ⟨third, low, whole⟩ := put_spec front (by
      rw [List.length_append]
      exact (by decide : 6 + 1 < 8 + 32 / 2)) (identifier &&& 0xFF).toUInt8
    have mask : (identifier &&& 0xFF).toUInt8 = identifier.toUInt8 := by
      rw [← UInt8.toNat_inj, UInt16.toNat_toUInt8, UInt16.toNat_toUInt8, UInt16.toNat_and]
      exact congrArg (· % 2 ^ 8) (Nat.and_two_pow_sub_one_eq_mod identifier.toNat 8) |>.trans (Nat.mod_mod _ _)
    refine ⟨third, ?_, ?_⟩
    · rw [start_salt, if_pos (show (!false) = true from rfl), named, ok_bind, high, ok_bind]
      rw [show put second (CUSTOMIZATION_ORIG.length + 1) _ = _ from low]
      rfl
    · rw [mask, List.append_assoc] at whole
      exact whole

/-- Decryption in memory neither leaves its buffers nor differs from decryption on byte strings. -/
theorem decrypt_ems_spec (crypto : Crypto) (start : Buffers) {ems passphrase : Bytes} (exponent : Nat) (identifier : UInt16)
    (extendable : Bool) (some_byte : ems.length ≠ 0) (even : ems.length % 2 = 0)
    (small : ems.length ≤ SLIP39_MASTER_SECRET_MAX) (short : passphrase.length ≤ PASSPHRASE_MAX_LEN)
    (master_secret : Vector UInt8 ems.length) :
    ∃ out, decrypt_ems crypto start ems passphrase exponent identifier extendable master_secret = .ok out ∧
      Slip39.decrypt_ems crypto ems passphrase exponent identifier extendable = .ok out.toList := by
  have half_small : ems.length / 2 ≤ SLIP39_MASTER_SECRET_MAX / 2 := Nat.div_le_div_right small
  have checked : (decide (ems.length ≠ 0) && decide (ems.length % 2 = 0) && decide (ems.length ≤ SLIP39_MASTER_SECRET_MAX)) = true := by
    rw [decide_eq_true some_byte, decide_eq_true even, decide_eq_true small]
    rfl
  have front_length : (ems.take (ems.length / 2)).length = ems.length / 2 := by
    rw [List.length_take]
    omega
  have back_length : (ems.drop (ems.length / 2)).length = ems.length / 2 := by
    rw [List.length_drop]
    omega
  obtain ⟨salt, salted, prefixed⟩ := start_salt_spec identifier extendable start.salt
  obtain ⟨old, others, layout⟩ : ∃ old others, start.pass.toList = old :: others := by
    have length : start.pass.toList.length = 1 + PASSPHRASE_MAX_LEN := Vector.length_toList
    cases known : start.pass.toList with
    | nil =>
      rw [known] at length
      cases length
    | cons old others => exact ⟨old, others, rfl⟩
  obtain ⟨pass, copied, ⟨junk, password⟩⟩ := @putAll_spec _ start.pass [old] passphrase ⟨others, layout.symm⟩
    (by rw [List.length_singleton]; exact Nat.add_le_add_left short 1)
  obtain ⟨half_l, lefts, is_left⟩ := @putAll_start _ start.half_l (ems.take (ems.length / 2)) (by rw [front_length]; exact half_small)
  obtain ⟨half_r, rights, is_right⟩ := @putAll_start _ start.half_r (ems.drop (ems.length / 2)) (by rw [back_length]; exact half_small)
  have holds : Holds passphrase (leading_salt identifier extendable) (ems.take (ems.length / 2)) (ems.drop (ems.length / 2))
      (ems.length / 2) { pass, salt, half_l, half_r, f := start.f } :=
    ⟨⟨old, junk, password.symm⟩, prefixed, is_left, is_right, front_length, back_length⟩
  obtain ⟨later, looped, last⟩ := @all_rounds_spec crypto passphrase (leading_salt identifier extendable) _ _ _ (cost exponent)
    (leading_salt_length identifier extendable) half_small 4 _ holds
  generalize turned : rounds (round_function crypto passphrase (leading_salt identifier extendable) (cost exponent) (ems.length / 2))
    (countdown 4) (ems.take (ems.length / 2), ems.drop (ems.length / 2)) = halves at last
  obtain ⟨first, wrote, begun⟩ := @putAll_start _ master_secret halves.2 (by rw [last.right_length]; omega)
  obtain ⟨out, finished, whole⟩ := @putAll_spec _ first halves.2 halves.1 begun (by rw [last.right_length, last.left_length]; omega)
  have same : halves.2 ++ halves.1 = out.toList := by
    refine whole.eq_of_length ?_
    rw [List.length_append, last.right_length, last.left_length, Vector.length_toList]
    omega
  rw [last.right_length] at finished
  refine ⟨out, ?_, ?_⟩
  · rw [decrypt_ems, checked, ensure, if_pos rfl, ok_bind, decide_eq_true short, ensure, if_pos rfl, ok_bind, salted, ok_bind]
    dsimp only
    rw [show putAll start.pass 1 passphrase = _ from copied, ok_bind, lefts, ok_bind, rights, ok_bind,
      show all_rounds crypto _ _ _ _ ROUND_COUNT.toNat _ = _ from looped, ok_bind, slice_length last.half_r last.right_length,
      ok_bind, wrote, ok_bind, slice_length last.half_l last.left_length, ok_bind, finished]
  · rw [Slip39.decrypt_ems, checked, Check.ensure_true, Check.ok_bind, decide_eq_true short, Check.ensure_true, Check.ok_bind]
    dsimp only
    rw [show rounds _ [3, 2, 1, 0] _ = halves from turned, same]
    rfl

/-- The encryption of a master secret, in which round i takes L and R to R and L with F(i, R) added. -/
def encryption (crypto : Crypto) (passphrase : Bytes) (exponent : UInt8) (identifier : UInt16) (extendable : Bool)
    (master_secret : Bytes) : Bytes :=
  Slip39.encryption (round_function crypto passphrase (leading_salt identifier extendable) (cost exponent.toNat)
    (master_secret.length / 2)) master_secret

/-- Whatever function derives the keys, decryption in the buffers of the device gives back every master secret of an
even length that fits. -/
theorem decrypt_ems_inverts (crypto : Crypto) (start : Buffers) (master_secret passphrase : Bytes) (exponent : UInt8)
    (identifier : UInt16) (extendable : Bool) (some_byte : master_secret.length ≠ 0) (even : master_secret.length % 2 = 0)
    (small : master_secret.length ≤ SLIP39_MASTER_SECRET_MAX) (short : passphrase.length ≤ PASSPHRASE_MAX_LEN) :
    (encryption crypto passphrase exponent identifier extendable master_secret).length = master_secret.length ∧
    (exponent.toNat < 16 → encryption crypto passphrase exponent identifier extendable master_secret =
      encrypt crypto master_secret passphrase exponent.toNat identifier extendable) ∧
    ∀ room, ∃ out, decrypt_ems crypto start (encryption crypto passphrase exponent identifier extendable master_secret)
      passphrase exponent.toNat identifier extendable room = .ok out ∧ out.toList = master_secret := by
  have long := @round_function_length crypto passphrase (leading_salt identifier extendable) (cost exponent.toNat)
    (master_secret.length / 2) (by rw [SLIP39_MASTER_SECRET_MAX] at small; omega)
  have length : (encryption crypto passphrase exponent identifier extendable master_secret).length = master_secret.length :=
    encryption_length even long
  refine ⟨length, ?_, ?_⟩
  · intro standard
    exact (encrypt_eq crypto master_secret passphrase identifier extendable standard).symm
  · intro room
    obtain ⟨out, decrypted, same⟩ := decrypt_ems_spec crypto start exponent.toNat identifier extendable (by rwa [length])
      (by rwa [length]) (by rwa [length]) short room
    have inverted := decrypt_encryption crypto exponent.toNat identifier extendable some_byte even small short
    exact ⟨out, decrypted, (Except.ok.inj (inverted.symm.trans same)).symm⟩

def emptyBuffers : Buffers where
  pass := Vector.replicate _ 0
  salt := Vector.replicate _ 0
  half_l := Vector.replicate _ 0
  half_r := Vector.replicate _ 0
  f := Vector.replicate _ 0

theorem decrypt_ems_inverts_short : ∃ out,
    decrypt_ems plainCrypto emptyBuffers (encryption plainCrypto [7] 1 0x1234 false [1, 2, 3, 4]) [7] 1 0x1234 false
      (Vector.replicate _ 0) = .ok out ∧ out.toList = [1, 2, 3, 4] :=
  (decrypt_ems_inverts plainCrypto emptyBuffers [1, 2, 3, 4] [7] 1 0x1234 false (by decide) (by decide) (by decide)
    (by decide)).2.2 (Vector.replicate _ 0)

end PiJade.Slip39.Memory
