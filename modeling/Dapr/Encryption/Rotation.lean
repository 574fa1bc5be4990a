import Dapr.Encryption.State
import Mathlib.Data.List.Infix
/-!
# Key rotation

A value written under the primary key is read back under the same keys, and after the key has become
the secondary one, if the name of the key can be found again behind the separator and leads to the
key.
-/

namespace Dapr.Encryption

open Lib Base64 List

/-! ## The name on the record -/

/-- Nothing of the name is taken for the separator. -/
structure Readable (name : Bytes) : Prop where
  nonempty : name ≠ []
  apart : ¬ separator <:+: bar :: name

instance (name : Bytes) : Decidable (Readable name) :=
  decidable_of_iff (name ≠ [] ∧ ¬ separator <:+: bar :: name) ⟨fun h => ⟨h.1, h.2⟩, fun h => ⟨h.1, h.2⟩⟩

variable {cipherObj l name sep value : Bytes} {key key' : Key} {keys : ComponentEncryptionKeys}

theorem lastIndex_append {i : Nat} (h : lastIndex sep l = some i) (start : Bytes) :
    lastIndex sep (start ++ l) = some (start.length + i) := by
  induction start with
  | nil => simpa using h
  | cons a start ih =>
    simp only [cons_append, lastIndex, ih, length_cons, Option.some.injEq]
    omega

theorem lastIndex_eq_none : lastIndex sep l = none ↔ ¬ sep <:+: l := by
  induction l with
  | nil => simp [lastIndex]
  | cons a l ih =>
    rw [infix_cons_iff, not_or, ← ih]
    cases h : lastIndex sep l <;> simp [lastIndex, h]

theorem lastIndex_of_readable {start : Bytes} (h : Readable name) :
    lastIndex separator (start ++ separator ++ name) = some start.length := by
  have hnone := lastIndex_eq_none.2 h.apart
  have hfirst : lastIndex separator (separator ++ name) = some 0 := by
    change lastIndex separator (bar :: bar :: name) = some 0
    rw [lastIndex, hnone]
    rfl
  rw [append_assoc]
  exact lastIndex_append hfirst start

/-- A separator that begins in the name, or with the last byte of the separator before it, is found. -/
theorem lastIndex_of_infix (start : Bytes) (h : separator <:+: bar :: name) :
    ∃ i, lastIndex separator (start ++ separator ++ name) = some (start.length + 1 + i) := by
  cases hi : lastIndex separator (bar :: name) with
  | none => exact absurd h (lastIndex_eq_none.1 hi)
  | some i =>
    refine ⟨i, ?_⟩
    have hstart : start ++ separator ++ name = (start ++ [bar]) ++ bar :: name := by simp [separator]
    rw [hstart, lastIndex_append hi]
    simp

/-! ## The keys of a component -/

/-- A key that is not empty has the cipher of its text. -/
def Made (key : Key) : Prop := key.key ≠ [] → ∃ bytes, createCipher key = .ok bytes ∧ key.cipherObj = some bytes

theorem made_of_withCipher (h : withCipher key = .ok key') : Made key' := by
  unfold withCipher at h
  split at h
  · next hkey =>
    cases h
    exact fun hne => absurd hkey hne
  · cases hc : createCipher key with
    | error err =>
      rw [hc] at h
      cases h
    | ok bytes =>
      rw [hc] at h
      cases h
      exact fun _ => ⟨bytes, hc, rfl⟩

theorem made_of_componentEncryptionKey {component : Component} {secretStore : Option SecretStore}
    (h : componentEncryptionKey component secretStore = .ok keys) : Made keys.primary ∧ Made keys.secondary := by
  cases secretStore with
  | none =>
    cases h
    exact ⟨fun hne => absurd rfl hne, fun hne => absurd rfl hne⟩
  | some secretStore =>
    simp only [componentEncryptionKey, bind, Except.bind] at h
    split at h
    · cases h
    · split at h
      · cases h
      · next hprimary =>
        split at h
        · cases h
        · next hsecondary =>
          cases h
          exact ⟨made_of_withCipher hprimary, made_of_withCipher hsecondary⟩

/-- The cipher depends on the text of the key only. -/
theorem Made.cipherObj_eq (h : Made key) (h' : Made key') (hne : key.key ≠ []) (heq : key'.key = key.key) :
    key'.cipherObj = key.cipherObj := by
  obtain ⟨bytes, hc, hobj⟩ := h hne
  obtain ⟨bytes', hc', hobj'⟩ := h' (heq ▸ hne)
  have hsame : createCipher key' = createCipher key := by simp only [createCipher, heq]
  rw [hsame, hc] at hc'
  cases hc'
  rw [hobj, hobj']

/-! ## Reading a value -/

section

variable {aead : Aead} {stores : Stores} {storeName : String}

theorem decrypt_encode_iff {text : Bytes} {nonce : Nonce} :
    decrypt aead (encode (nonce.val ++ text)) cipherObj = (value, none) ↔
      aead.opened cipherObj nonce.val text = some value := by
  have hshort : ¬ (nonce.val ++ text).length < nonceSize := by
    rw [length_append]
    omega
  simp only [decrypt, decode_encode, if_neg hshort]
  rw [take_left' nonce.property, drop_left' nonce.property]
  cases aead.opened cipherObj nonce.val text <;> simp

/-- A value under a readable name is decrypted with the key of that name, the primary one first. -/
theorem tryDecryptValue_iff (hkeys : stores.lookup storeName = some keys) (hname : Readable name) {enc : Bytes} :
    tryDecryptValue aead stores storeName (encode enc ++ separator ++ name) = (value, none) ↔
      ∃ cipherObj, (if keys.primary.name = name then keys.primary
        else if keys.secondary.name = name then keys.secondary else .zero).cipherObj = some cipherObj ∧
        decrypt aead (encode enc) cipherObj = (value, none) := by
  have hlen : (encode enc ++ separator ++ name).length = (encode enc).length + separator.length + name.length := by
    rw [length_append, length_append]
  have hpos := length_pos_iff.2 hname.nonempty
  unfold tryDecryptValue
  rw [if_neg (by omega), lastIndex_of_readable hname]
  simp only [keysOf, hkeys, Option.getD_some]
  rw [if_neg (by omega), append_assoc, ← drop_drop, drop_left, drop_left]
  split
  · next hnone => simp [hnone]
  · next cipherObj hsome => simp [hsome]

/-- A value under a name that is not readable is not decrypted: what is before the last separator is no text. -/
theorem tryDecryptValue_of_not_readable (hname : ¬ Readable name) (enc : Bytes) :
    (tryDecryptValue aead stores storeName (encode enc ++ separator ++ name)).2 ≠ none := by
  unfold tryDecryptValue
  rw [if_neg (by simp [separator])]
  by_cases hinfix : separator <:+: bar :: name
  · obtain ⟨i, hi⟩ := lastIndex_of_infix (encode enc) hinfix
    rw [hi]
    dsimp only
    split
    · simp
    · split
      · simp
      · next cipherObj _ =>
        have hbar : bar ∈ (encode enc ++ separator ++ name).take ((encode enc).length + 1 + i) := by
          rw [append_assoc, Nat.add_assoc, take_length_add_append]
          exact mem_append_right _ (by rw [Nat.add_comm]; exact mem_cons_self)
        have hnot : ¬ InAlphabet bar := by rintro (h | h) <;> revert h <;> decide
        rw [decrypt, decode_eq_none hbar (by decide) hnot]
        simp
  · obtain rfl : name = [] := Classical.byContradiction fun hne => hname ⟨hne, hinfix⟩
    have hlast : lastIndex separator (encode enc ++ separator ++ []) = some (encode enc).length := by
      rw [append_nil]
      exact lastIndex_append (i := 0) (by decide) _
    rw [hlast]
    simp

end

/-! ## Round trips -/

/-- Every value that is written under the keys of `before` is read back under those of `after`. -/
def Recovers (before after : Stores) (storeName : String) : Prop :=
  ∀ (aead : Aead) (nonce : Nonce) (value : Bytes), ∃ written,
    tryEncryptValue aead before storeName (some nonce) value = some (written, none) ∧
      tryDecryptValue aead after storeName written = (value, none)

/-- A cipher that is told from every other by its texts. -/
def labelled : Aead where
  sealed key _ value := key ++ value
  opened key _ text := if key <+: text then some (text.drop key.length) else none
  opened_sealed key nonce value := by simp

theorem eq_of_labelled_opened {key key' nonce : Bytes} (h : labelled.opened key' nonce (key ++ []) = some []) :
    key' = key := by
  rw [append_nil] at h
  simp only [labelled] at h
  split at h
  · next hprefix =>
    have hlen := drop_eq_nil_iff.1 (Option.some.inj h)
    exact hprefix.eq_of_length (Nat.le_antisymm hprefix.length_le hlen)
  · cases h

theorem recovers_iff {before after : Stores} {storeName : String} {keys' : ComponentEncryptionKeys}
    (hbefore : before.lookup storeName = some keys) (hafter : after.lookup storeName = some keys')
    (hcipher : keys.primary.cipherObj = some cipherObj) (hkept : keys'.primary.name = keys.primary.name ∨
      keys'.secondary.name = keys.primary.name ∧ keys'.secondary.cipherObj = some cipherObj) :
    Recovers before after storeName ↔
      Readable keys.primary.name ∧ (keys'.primary.name = keys.primary.name → keys'.primary.cipherObj = some cipherObj) := by
  have hwritten : ∀ (aead : Aead) (nonce : Nonce) (value : Bytes),
      tryEncryptValue aead before storeName (some nonce) value =
        some (encode (nonce.val ++ aead.sealed cipherObj nonce.val value) ++ separator ++ keys.primary.name, none) := by
    intro aead nonce value
    simp [tryEncryptValue, encrypt, keysOf, hbefore, hcipher]
  constructor
  · intro h
    have hname : Readable keys.primary.name := by
      by_contra hnot
      obtain ⟨written, hw, hread⟩ := h labelled ⟨replicate 12 0, rfl⟩ []
      rw [hwritten] at hw
      cases hw
      exact tryDecryptValue_of_not_readable hnot _ (congrArg Prod.snd hread)
    refine ⟨hname, fun heq => ?_⟩
    obtain ⟨written, hw, hread⟩ := h labelled ⟨replicate 12 0, rfl⟩ []
    rw [hwritten] at hw
    cases hw
    obtain ⟨cipherObj', hobj, hdecrypt⟩ := (tryDecryptValue_iff hafter hname).1 hread
    rw [if_pos heq] at hobj
    rw [hobj, eq_of_labelled_opened (decrypt_encode_iff.1 hdecrypt)]
  · rintro ⟨hname, hprimary⟩ aead nonce value
    refine ⟨_, hwritten aead nonce value, ?_⟩
    have hkey : (if keys'.primary.name = keys.primary.name then keys'.primary
        else if keys'.secondary.name = keys.primary.name then keys'.secondary else .zero).cipherObj =
        some cipherObj := by
      split
      · next heq => exact hprimary heq
      · next hne =>
        obtain ⟨heq, hobj⟩ := hkept.resolve_left hne
        rw [if_pos heq, hobj]
    exact (tryDecryptValue_iff hafter hname).2
      ⟨cipherObj, hkey, decrypt_encode_iff.2 (aead.opened_sealed cipherObj nonce.val value)⟩

/-- With accepted keys, what is written under the primary key is read back under the same keys if and
only if its name is readable; and after a rotation to accepted keys of which it is the secondary one,
if moreover a primary key of that name is the same key. -/
theorem rotation_iff {component component' : Component} {secrets secrets' : Option SecretStore}
    {keys keys' : ComponentEncryptionKeys} {before after : Stores} {storeName : String}
    (hkeys : componentEncryptionKey component secrets = .ok keys) (hprimary : keys.primary.key ≠ [])
    (hbefore : before.lookup storeName = some keys)
    (hkeys' : componentEncryptionKey component' secrets' = .ok keys') (hafter : after.lookup storeName = some keys')
    (hkey : keys'.secondary.key = keys.primary.key) (hname : keys'.secondary.name = keys.primary.name) :
    (Recovers before before storeName ↔ Readable keys.primary.name) ∧
      (Recovers before after storeName ↔ Readable keys.primary.name ∧
        (keys'.primary.name = keys.primary.name → keys'.primary.cipherObj = keys.primary.cipherObj)) := by
  have hmade := (made_of_componentEncryptionKey hkeys).1
  obtain ⟨cipherObj, -, hobj⟩ := hmade hprimary
  have hobj' : keys'.secondary.cipherObj = some cipherObj :=
    (hmade.cipherObj_eq (made_of_componentEncryptionKey hkeys').2 hprimary hkey).trans hobj
  refine ⟨?_, ?_⟩
  · rw [recovers_iff hbefore hbefore hobj (.inl rfl)]
    exact ⟨fun h => h.1, fun h => ⟨h, fun _ => hobj⟩⟩
  · rw [hobj]
    exact recovers_iff hbefore hafter hobj (.inr ⟨hname, hobj'⟩)

/-- A metadata item whose key was extracted already: 32 hexadecimal digits. -/
def extracted (name : String) (digit : UInt8) (secretName : Bytes) : NameValuePair :=
  ⟨name, ⟨replicate 32 digit, replicate 32 digit⟩, ⟨secretName, []⟩⟩

def extractedKey (digit : UInt8) (secretName : Bytes) : Key :=
  ⟨replicate 32 digit, secretName, Hex.decode (replicate 32 digit)⟩

/-- A process that has added one store. -/
def added (keys : ComponentEncryptionKeys) : Stores := (addEncryptedStateStore ∅ "store" keys).1

theorem lookup_added (keys : ComponentEncryptionKeys) : (added keys).lookup "store" = some keys := AList.lookup_insert _

/-- The key `a` is replaced by the key `b`. -/
theorem rotation_from_a_to_b :
    Recovers (added ⟨extractedKey 48 [97], .zero⟩) (added ⟨extractedKey 49 [98], extractedKey 48 [97]⟩) "store" := by
  have hkeys : componentEncryptionKey ⟨"default", [extracted primaryEncryptionKey 48 [97]]⟩ (some fun _ _ => .ok fun _ => none) =
      .ok ⟨extractedKey 48 [97], .zero⟩ := rfl
  have hkeys' : componentEncryptionKey
      ⟨"default", [extracted primaryEncryptionKey 49 [98], extracted secondaryEncryptionKey 48 [97]]⟩
      (some fun _ _ => .ok fun _ => none) = .ok ⟨extractedKey 49 [98], extractedKey 48 [97]⟩ := rfl
  have h := rotation_iff hkeys (by decide) (lookup_added _) hkeys' (lookup_added _) rfl rfl
  exact h.2.2 ⟨by decide, by decide⟩

/-- Accepted keys under which nothing is read back: the empty name, a name that begins with a bar, a name with the
separator in it; and a rotation to another key of the same name. -/
theorem values_under_lost_names :
    (∀ name ∈ [[], [bar, 97], [97, bar, bar, 98]],
      componentEncryptionKey ⟨"default", [extracted primaryEncryptionKey 48 name]⟩ (some fun _ _ => .ok fun _ => none) =
          .ok ⟨extractedKey 48 name, .zero⟩ ∧
        ¬ Recovers (added ⟨extractedKey 48 name, .zero⟩) (added ⟨extractedKey 48 name, .zero⟩) "store") ∧
    componentEncryptionKey
        ⟨"default", [extracted primaryEncryptionKey 49 [97], extracted secondaryEncryptionKey 48 [97]]⟩
        (some fun _ _ => .ok fun _ => none) = .ok ⟨extractedKey 49 [97], extractedKey 48 [97]⟩ ∧
      ¬ Recovers (added ⟨extractedKey 48 [97], .zero⟩) (added ⟨extractedKey 49 [97], extractedKey 48 [97]⟩) "store" := by
  refine ⟨?_, rfl, ?_⟩
  · intro name hname
    refine ⟨rfl, fun h => ?_⟩
    have hreadable := ((recovers_iff (lookup_added _) (lookup_added _) rfl (.inl rfl)).1 h).1
    revert hname hreadable
    simp only [mem_cons, not_mem_nil, or_false]
    rintro (rfl | rfl | rfl) <;> decide
  · intro h
    have hsame := ((recovers_iff (lookup_added _) (lookup_added _) rfl (.inr ⟨rfl, rfl⟩)).1 h).2 rfl
    revert hsame
    decide

end Dapr.Encryption
