import PiJade.KeychainSlots

/-!
Whose the caches are. The caches are variables beside the table, so which wallet was in use
when one was filled is tracked beside the state. Filling, clearing and loading keep a cache
with its wallet; choosing another wallet, or forgetting one while others are held, does not
touch the caches, and only these two can part them.
-/
namespace PiJade.Keychain
set_option linter.unusedSimpArgs false
open Storage

section
variable {K : Type} (wally : Wally K)

/-- The state, and the wallets that were in use when the caches were filled. -/
structure Tracked (K : Type) where
  jade : Jade K
  entropy_owner : Option (Keydata K)
  secret_owner : Option (Keydata K)

/-- The owner of a cache after a step, from its lengths before and after it. -/
def owner (before after : Nat) (wallet was : Option (Keydata K)) : Option (Keydata K) :=
  if after = 0 then none else if before = 0 then wallet else was

def Tracked.step (tracked : Tracked K) (event : Event K) : Tracked K :=
  let before := tracked.jade.ram
  let jade := (keychain wally).step tracked.jade event
  { jade := jade
    entropy_owner := owner before.mnemonic_entropy_len jade.ram.mnemonic_entropy_len before.wallet tracked.entropy_owner
    secret_owner := owner before.slip39_master_secret_len jade.ram.slip39_master_secret_len before.wallet
      tracked.secret_owner }

/-- The keychain with the owners of its caches. -/
def trackedKeychain : Machine (Tracked K) (Event K) (Check Interrupt Bool) where
  step := Tracked.step wally
  out tracked event := (keychain wally).out tracked.jade event

def freshTracked (durable : Contents) : Tracked K := ⟨fresh wally durable, none, none⟩

/-- A cache that holds something is that of the wallet in use. -/
structure Owned (tracked : Tracked K) : Prop where
  entropy : tracked.jade.ram.mnemonic_entropy_len ≠ 0 → tracked.entropy_owner = tracked.jade.ram.wallet
  secret : tracked.jade.ram.slip39_master_secret_len ≠ 0 → tracked.secret_owner = tracked.jade.ram.wallet

def Ram.Cached (ram : Ram K) : Prop := ram.mnemonic_entropy_len ≠ 0 ∨ ram.slip39_master_secret_len ≠ 0

/-- While a cache holds something, no wallet with other keys is put in use. -/
def KeepsWallet (tracked : Tracked K) : Event K → Prop
  | .call (.slot_activate position) _ => tracked.jade.ram.Cached → ∀ slot, tracked.jade.ram.at position = some slot →
    tracked.jade.ram.wallet = some (tracked.jade.ram.keychain_slots slot).keydata
  | .call .slot_forget_active _ => tracked.jade.ram.Cached →
    ∀ slot, (tracked.jade.ram.forgotten wally).at 0 = some slot →
      tracked.jade.ram.wallet = some (tracked.jade.ram.keychain_slots slot).keydata
  | _ => True

/-! ### One cache over a step -/

section
variable {before after : Nat} {wallet wallet' was : Option (Keydata K)}

theorem owner_filled (empty : before = 0) (filled : after ≠ 0) : owner before after wallet was = wallet := by
  rw [owner, if_neg filled, if_pos empty]

/-- A cache that is left alone keeps its owner. -/
theorem owner_kept (owned : before ≠ 0 → was = wallet) (same : after = before) (filled : after ≠ 0) :
    owner before after wallet was = wallet := by
  rw [same] at filled ⊢
  rw [owner, if_neg filled, if_neg filled]
  exact owned filled

end

/-- The wallet in use. -/
def Wallets.wallet (wallets : Wallets K) : Option (Keydata K) :=
  wallets.inUse.map fun slot => (wallets.slots slot).keydata

theorem wallet_place (wallets : Wallets K) {value : Slot K}
    (same : value.keydata = (wallets.slots wallets.active).keydata) : (wallets.place value).wallet = wallets.wallet := by
  show wallets.inUse.map (fun slot => (Function.update wallets.slots wallets.active value slot).keydata) = _
  apply congrArg (fun read => wallets.inUse.map read)
  funext slot
  by_cases active : slot = wallets.active
  · rw [active, Function.update_self, same]
  · rw [Function.update_of_ne active]

variable {wally} {tracked : Tracked K}

/-- The owners after a step that leaves these wallets. -/
def OwnedAs (tracked : Tracked K) (after : Wallets K) : Prop :=
  (after.entropy_len ≠ 0 → owner tracked.jade.ram.mnemonic_entropy_len after.entropy_len tracked.jade.ram.wallet
    tracked.entropy_owner = after.wallet) ∧
  (after.secret_len ≠ 0 → owner tracked.jade.ram.slip39_master_secret_len after.secret_len tracked.jade.ram.wallet
    tracked.secret_owner = after.wallet)

theorem ownedAs_empty {after : Wallets K} (entropy : after.entropy_len = 0) (secret : after.secret_len = 0) :
    OwnedAs tracked after := ⟨fun filled => absurd entropy filled, fun filled => absurd secret filled⟩

/-- The caches are left alone, and the wallet in use is the same if they hold anything. -/
theorem Owned.kept (owned : Owned tracked) {after : Wallets K}
    (entropy : after.entropy_len = tracked.jade.ram.mnemonic_entropy_len)
    (secret : after.secret_len = tracked.jade.ram.slip39_master_secret_len)
    (wallet : tracked.jade.ram.Cached → after.wallet = tracked.jade.ram.wallet) : OwnedAs tracked after := by
  constructor
  · intro filled
    rw [wallet (.inl (entropy ▸ filled))]
    exact owner_kept owned.entropy entropy filled
  · intro filled
    rw [wallet (.inr (secret ▸ filled))]
    exact owner_kept owned.secret secret filled

theorem Change.owners {made : Call K} {answers : List Answer} {after : Wallets K}
    (change : Change wally (tracked.jade.answering answers) made after)
    (keeps : KeepsWallet wally tracked (.call made answers)) (owned : Owned tracked) : OwnedAs tracked after := by
  cases change with
  | keep => exact owned.kept rfl rfl fun _ => rfl
  | clear => exact ownedAs_empty rfl rfl
  | only => exact ownedAs_empty rfl rfl
  | again => exact ownedAs_empty rfl rfl
  | more => exact ownedAs_empty rfl rfl
  | activate found =>
    apply owned.kept rfl rfl
    intro cached
    exact (keeps cached _ found).symm
  | @forget slot loaded found =>
    apply owned.kept rfl rfl
    intro cached
    rw [keeps cached _ found]
    -- The slot that takes over is in use, so it is not the one that was wiped.
    have used := slotFrom_in_use found
    have other : slot ≠ tracked.jade.ram.active_slot := by
      rintro rfl
      rw [show (tracked.jade.answering answers).ram = tracked.jade.ram from rfl, forgotten_active] at used
      cases used
    exact congrArg (fun value : Slot K => some value.keydata) (forgotten_other wally tracked.jade.ram other)
  | entropy => exact owned.kept rfl rfl fun _ => wallet_place _ rfl
  | temporary => exact owned.kept rfl rfl fun _ => wallet_place _ rfl
  | cacheEntropy mnemonic entropy entropy_len no_entropy no_secret =>
    exact ⟨owner_filled no_entropy, fun filled => absurd no_secret filled⟩
  | cacheSecret master_secret secret secret_len no_entropy no_secret =>
    exact ⟨fun filled => absurd no_entropy filled, owner_filled no_secret⟩
  | loadEntropy aeskey entropy empty no_entropy stored opens length =>
    exact ⟨owner_filled no_entropy, owner_kept owned.secret rfl⟩

theorem step_owned (event : Event K) (keeps : KeepsWallet wally tracked event) (owned : Owned tracked) :
    Owned (tracked.step wally event) := by
  have all : OwnedAs tracked ((keychain wally).step tracked.jade event).ram.wallets := by
    rcases @step_cases _ wally tracked.jade event with ⟨made, answers, rfl, change⟩ | emptied
    · exact change.owners keeps owned
    · rw [emptied]
      exact ownedAs_empty rfl rfl
  exact ⟨all.1, all.2⟩

/-! ### What is stored -/

variable (wally) in
/-- The bytes are of the wallet: made from a cache that is its own, or its keys. -/
inductive Persists (tracked : Tracked K) (wallet : Keydata K) : Bytes → Prop where
  | entropy : tracked.entropy_owner = some wallet → Persists tracked wallet tracked.jade.ram.entropy
  | secret : tracked.secret_owner = some wallet → Persists tracked wallet (SLIP39_BLOB_TAG :: tracked.jade.ram.secret)
  | keys {path : Bytes} : serializePath wallet.gaservice_path = some path →
    Persists tracked wallet (wally.bip32_key_serialize wallet.xpriv ++ path ++ wallet.master_unblinding_key)

theorem Owned.persists (owned : Owned tracked) {wallet : Keydata K} (loaded : tracked.jade.ram.wallet = some wallet)
    {serialized : Bytes} (shape : Cleartext wally tracked.jade.ram serialized) :
    Persists wally tracked wallet serialized := by
  cases shape with
  | entropy supported =>
    apply Persists.entropy
    rw [owned.entropy, loaded]
    simp only [BIP39_ENTROPY_LEN_128, BIP39_ENTROPY_LEN_256] at supported
    omega
  | secret no_entropy _ supported =>
    apply Persists.secret
    rw [owned.secret, loaded]
    simp only [SLIP39_MASTER_SECRET_MIN, SLIP39_MASTER_SECRET_MAX] at supported
    omega
  | keys no_entropy no_secret data written =>
    rw [Ram.wallet, data] at loaded
    obtain rfl := Option.some.inj loaded
    exact .keys written

end

/-- In every run in which no wallet with other keys is put in use while a cache holds
    something, a cache that holds something is that of the wallet in use, and what
    `keychain_store` persists is of that wallet. -/
theorem caches_belong_to_wallet {K : Type} (wally : Wally K) (durable : Contents) (events : List (Event K))
    (along : (trackedKeychain wally).Along (KeepsWallet wally) (freshTracked wally durable) events) (tracked : Tracked K)
    (reached : (trackedKeychain wally).final (freshTracked wally durable) events = tracked) :
    Owned tracked ∧ ∀ (aeskey iv : Bytes) (answers : List Answer) (left : Jade K) (wallet : Keydata K),
      tracked.jade.ram.wallet = some wallet →
      keychain_store wally aeskey iv (tracked.jade.answering answers) = (.ok true, left) →
      ∃ serialized, Saved wally aeskey iv serialized left.device ∧ Persists wally tracked wallet serialized := by
  have owned : Owned tracked := by
    rw [← reached]
    refine Machine.final_invariant (trackedKeychain wally) ?_ ⟨fun filled => absurd rfl filled,
      fun filled => absurd rfl filled⟩ along
    intro tracked event owned keeps
    exact step_owned event keeps owned
  refine ⟨owned, ?_⟩
  intro aeskey iv answers left wallet loaded stored
  obtain ⟨serialized, shape, saved⟩ := Proc.post_of_wp wp_keychain_store_fields stored rfl
  exact ⟨serialized, saved, owned.persists loaded shape⟩

/-! ### Another wallet -/

def firstWallet : Keydata UInt8 := { Keydata.zero plainWally with xpriv := 1 }
def secondWallet : Keydata UInt8 := { Keydata.zero plainWally with xpriv := 2 }

/-- Two wallets are loaded, the entropy of the second is cached, and the first is chosen. -/
def otherChosen : List (Event UInt8) :=
  [.boot (List.replicate 6 .ok), .call (.set (.new firstWallet) 0 false) (List.replicate 4 .ok),
    .call (.load_into_free_slot secondWallet 0 false) (List.replicate 2 .ok),
    .call (.cache_mnemonic_entropy (List.replicate 16 5)) [], .call (.slot_activate 0) []]

/-- Every call of the run returns true, and then the first wallet is in use and the entropy
    cached is the second's. -/
theorem entropy_of_other_wallet :
    (trackedKeychain plainWally).outputs (freshTracked plainWally fun _ _ => none) otherChosen =
      List.replicate 5 (.ok true) ∧
    ∃ tracked, (trackedKeychain plainWally).final (freshTracked plainWally fun _ _ => none) otherChosen = tracked ∧
      tracked.jade.ram.wallet = some firstWallet ∧ tracked.jade.ram.mnemonic_entropy_len = 16 ∧
      tracked.entropy_owner = some secondWallet ∧ firstWallet ≠ secondWallet :=
  ⟨rfl, _, rfl, rfl, rfl, rfl, by decide⟩

/-- The same run, but the second wallet is chosen again. -/
def sameChosen : List (Event UInt8) := otherChosen.take 4 ++ [.call (.slot_activate 1) []]

theorem caches_belong_to_wallet_sameChosen :
    Owned ((trackedKeychain plainWally).final (freshTracked plainWally fun _ _ => none) sameChosen) := by
  have along : (trackedKeychain plainWally).Along (KeepsWallet plainWally) (freshTracked plainWally fun _ _ => none)
      sameChosen := by
    refine ⟨trivial, trivial, trivial, trivial, ?_, trivial⟩
    intro _ slot found
    obtain rfl : 1 = slot := Option.some.inj found
    rfl
  exact (caches_belong_to_wallet plainWally _ _ along _ rfl).1

end PiJade.Keychain
