import DevRepro.Lib.Machine
import DevRepro.Python.Json

/-!
# Encrypted snapshots

`snapshots/vault.py`: a file is replaced by an encrypted one beside it, and back.  The cipher
is a parameter: `Fernet` is what the `cryptography` package documents of it.

A call writes a file and may then remove another, and can be interrupted at each point of
that.  `Held` says that some file still opens to a text.  `encryptFile_holds` and
`decryptFile_holds_iff` are about the points of one call, and `careful_keeps` about every run,
interrupted or not.
-/

namespace DevRepro.Snapshots

open DevRepro.Python DevRepro.Lib

abbrev Bytes := List UInt8

/-- A Fernet cipher.  A token is made with random bytes and the time, a malformed key raises. -/
structure Fernet where
  Seed : Type
  encrypt : Bytes → Seed → Bytes → Option Bytes
  decrypt : Bytes → Bytes → Option Bytes
  decrypt_encrypt : ∀ {key seed data token}, encrypt key seed data = some token →
    decrypt key token = some data

/-- `b"..."` -/
def ascii (text : String) : Bytes := (lit text).map fun c => UInt8.ofNat c.val

/-- `VAULT_HEADER` -/
def vaultHeader : Bytes := ascii "devrepro-vault-v1:"

/-- `.vault` -/
def vaultSuffix : Str := ".vault"

/-- What a call raises. -/
inductive VaultFailure where
  | notFound
  | badKey
  | notVault
  | invalidToken
  | badName
  deriving DecidableEq

abbrev VaultFiles := Files Str UInt8

/-- `is_encrypted` -/
def isEncrypted (files : VaultFiles) (name : Str) : Bool :=
  match files name with
  | none => false
  | some content => content.take vaultHeader.length == vaultHeader

section

variable (F : Fernet)

/-- `encrypt_bytes` -/
def encryptBytes (key : Bytes) (seed : F.Seed) (data : Bytes) : Except VaultFailure Bytes :=
  match F.encrypt key seed data with
  | none => .error .badKey
  | some token => .ok (vaultHeader ++ token)

/-- `decrypt_bytes` -/
def decryptBytes (key blob : Bytes) : Except VaultFailure Bytes :=
  if blob.take vaultHeader.length = vaultHeader then
    match F.decrypt key (blob.drop vaultHeader.length) with
    | none => .error .invalidToken
    | some data => .ok data
  else .error .notVault

/-- `encrypt_file`: what it does to the directory of the file. -/
def encryptFile (files : VaultFiles) (name : Str) (key : Bytes) (seed : F.Seed) :
    Except VaultFailure (List (Effect Str UInt8)) :=
  match files name with
  | none => .error .notFound
  | some data => do
    let blob ← encryptBytes F key seed data
    return [.write (name ++ vaultSuffix) blob, .remove name]

/-- The name that a file is decrypted to, where `with_name` and `write_bytes` accept it. -/
def vaultTarget? (name : Str) : Option Str :=
  let target :=
    if vaultSuffix <:+ name then name.take (name.length - vaultSuffix.length) else name
  if target ∈ [[], lit ".", lit ".."] then none else some target

/-- `decrypt_file` -/
def decryptFile (files : VaultFiles) (name : Str) (key : Bytes) (keepVault : Bool) :
    Except VaultFailure (List (Effect Str UInt8)) :=
  match vaultTarget? name with
  | none => .error .badName
  | some target =>
    match files name with
    | none => .error .notFound
    | some blob => do
      let data ← decryptBytes F key blob
      return if keepVault then [.write target data] else [.write target data, .remove name]

end

/-! ## What the files hold -/

variable {F : Fernet} {key : Bytes}

/-- A content opens to a text, by decrypting it as often as it was encrypted. -/
inductive Opens (F : Fernet) (key : Bytes) : Bytes → Bytes → Prop
  | plain (data : Bytes) : Opens F key data data
  | sealed {blob inner data : Bytes} (h : decryptBytes F key blob = .ok inner)
      (hinner : Opens F key inner data) : Opens F key blob data

/-- Some file opens to a text. -/
def Held (F : Fernet) (key : Bytes) (files : VaultFiles) (data : Bytes) : Prop :=
  ∃ name content, files name = some content ∧ Opens F key content data

/-- A text that is no encrypted artifact itself. -/
def PlainData (data : Bytes) : Prop := data.take vaultHeader.length ≠ vaultHeader

theorem decryptBytes_encryptBytes {seed : F.Seed} {data blob : Bytes}
    (h : encryptBytes F key seed data = .ok blob) : decryptBytes F key blob = .ok data := by
  rw [encryptBytes] at h
  cases htoken : F.encrypt key seed data with
  | none =>
    rw [htoken] at h
    cases h
  | some token =>
    rw [htoken] at h
    rw [← Except.ok.inj h, decryptBytes, List.take_left, if_pos rfl, List.drop_left,
      F.decrypt_encrypt htoken]

theorem vaultHeader_ne_nil : vaultHeader ≠ [] := by decide

theorem decryptBytes_nil : decryptBytes F key [] = .error .notVault := by
  rw [decryptBytes, List.take_nil, if_neg (Ne.symm vaultHeader_ne_nil)]

/-- An empty file holds nothing but the empty text. -/
theorem opens_nil {data : Bytes} : Opens F key [] data ↔ data = [] := by
  constructor
  · intro h
    cases h with
    | plain => rfl
    | sealed h =>
      rw [decryptBytes_nil] at h
      cases h
  · rintro rfl
    exact .plain []

/-- A plain text is opened from an artifact through its content. -/
theorem Opens.of_decrypt {blob inner data : Bytes} (h : Opens F key blob data) (hdata : PlainData data)
    (hblob : decryptBytes F key blob = .ok inner) : Opens F key inner data := by
  cases h with
  | plain =>
    rw [decryptBytes, if_neg hdata] at hblob
    cases hblob
  | sealed h hinner =>
    rw [hblob] at h
    exact Except.ok.inj h ▸ hinner

theorem held_update_of_ne {files : VaultFiles} {name other : Str} {content : Option Bytes} {data found : Bytes}
    (hne : other ≠ name) (hfound : files other = some found) (h : Opens F key found data) :
    Held F key (Function.update files name content) data :=
  ⟨other, found, by rw [Function.update_of_ne hne, hfound], h⟩

theorem held_update_self {files : VaultFiles} {name : Str} {content data : Bytes}
    (h : Opens F key content data) : Held F key (Function.update files name (some content)) data :=
  ⟨name, content, Function.update_self .., h⟩

theorem Held.of_update {files : VaultFiles} {name : Str} {content : Option Bytes} {data : Bytes}
    (h : Held F key (Function.update files name content) data) :
    (∃ part, content = some part ∧ Opens F key part data) ∨
      ∃ other found, other ≠ name ∧ files other = some found ∧ Opens F key found data := by
  obtain ⟨other, found, hfound, hopens⟩ := h
  by_cases hne : other = name
  · rw [hne, Function.update_self] at hfound
    exact .inl ⟨found, hfound, hopens⟩
  · rw [Function.update_of_ne hne] at hfound
    exact .inr ⟨other, found, hne, hfound, hopens⟩

/-- A file that was not there may hold anything. -/
theorem Held.write {files : VaultFiles} {target : Str} {data : Bytes} (h : Held F key files data)
    (hnone : files target = none) (part : Option Bytes) :
    Held F key (Function.update files target part) data := by
  obtain ⟨other, content, hcontent, hopens⟩ := h
  refine held_update_of_ne (fun heq => ?_) hcontent hopens
  rw [heq, hnone] at hcontent
  cases hcontent

/-- A file may go when a new one holds what it held. -/
theorem Held.move {files : VaultFiles} {name target : Str} {data written : Bytes} (h : Held F key files data)
    (hnone : files target = none) (hne : target ≠ name)
    (hwritten : ∀ content, files name = some content → Opens F key content data → Opens F key written data) :
    Held F key (Function.update (Function.update files target (some written)) name none) data := by
  obtain ⟨other, content, hcontent, hopens⟩ := h
  by_cases hname : other = name
  · rw [hname] at hcontent
    exact held_update_of_ne hne (Function.update_self ..) (hwritten content hcontent hopens)
  · have hother : other ≠ target := by
      intro heq
      rw [heq, hnone] at hcontent
      cases hcontent
    exact held_update_of_ne hname (by rw [Function.update_of_ne hother, hcontent]) hopens

/-! ## One call -/

theorem encryptFile_eq_ok {files : VaultFiles} {name : Str} {seed : F.Seed}
    {effects : List (Effect Str UInt8)} (h : encryptFile F files name key seed = .ok effects) :
    ∃ data blob, files name = some data ∧ encryptBytes F key seed data = .ok blob ∧
      effects = [.write (name ++ vaultSuffix) blob, .remove name] := by
  rw [encryptFile] at h
  cases hdata : files name with
  | none =>
    rw [hdata] at h
    cases h
  | some data =>
    rw [hdata] at h
    obtain ⟨blob, hblob, h⟩ := bind_eq_ok.mp h
    exact ⟨data, blob, rfl, hblob, (Except.ok.inj h).symm⟩

theorem decryptFile_eq_ok {files : VaultFiles} {name : Str} {keepVault : Bool}
    {effects : List (Effect Str UInt8)} (h : decryptFile F files name key keepVault = .ok effects) :
    ∃ target blob data, vaultTarget? name = some target ∧ files name = some blob ∧
      decryptBytes F key blob = .ok data ∧
      effects = if keepVault then [.write target data] else [.write target data, .remove name] := by
  rw [decryptFile] at h
  cases htarget : vaultTarget? name with
  | none =>
    rw [htarget] at h
    cases h
  | some target =>
    rw [htarget] at h
    cases hblob : files name with
    | none =>
      rw [hblob] at h
      cases h
    | some blob =>
      rw [hblob] at h
      obtain ⟨data, hdata, h⟩ := bind_eq_ok.mp h
      exact ⟨target, blob, data, rfl, rfl, hdata, (Except.ok.inj h).symm⟩

/-- Where a decryption can stand: before the write, in it, and behind the removal. -/
theorem points_decrypt {files t : VaultFiles} {name target : Str} {data : Bytes} {keepVault : Bool} :
    Points files (if keepVault then [.write target data] else [.write target data, .remove name]) t ↔
      t = files ∨ (∃ part, part <+: data ∧ t = Function.update files target (some part)) ∨
        (keepVault = false ∧ t = Function.update (Function.update files target (some data)) name none) := by
  cases keepVault with
  | true =>
    rw [if_pos rfl, points_write]
    simp
  | false =>
    rw [if_neg Bool.false_ne_true, points_write_remove]
    simp

theorem append_vaultSuffix_ne (name : Str) : name ++ vaultSuffix ≠ name := by
  intro h
  have hlength := congrArg List.length h
  rw [List.length_append] at hlength
  have hsuffix : vaultSuffix.length = 6 := rfl
  omega

/-- A name is decrypted to itself exactly when the suffix is missing. -/
theorem vaultTarget?_ne_iff {name target : Str} (h : vaultTarget? name = some target) :
    target ≠ name ↔ vaultSuffix <:+ name := by
  rw [vaultTarget?] at h
  split_ifs at h with hsuffix hbad hbad
  · rw [← Option.some.inj h]
    refine ⟨fun _ => hsuffix, fun _ heq => ?_⟩
    have hlength := congrArg List.length heq
    rw [List.length_take] at hlength
    have hle := hsuffix.length_le
    have hsix : vaultSuffix.length = 6 := rfl
    omega
  · exact ⟨fun hne => absurd (Option.some.inj h).symm hne, fun hs => absurd hs hsuffix⟩

def sampleKey : Bytes := ascii "cw_0x689RpI-jtRR7oE8h_eQsKImvJapLeSbXpwF4e4="

def sampleText : Bytes := ascii "hello"

def sampleToken : Bytes :=
  ascii ("gAAAAAAdwJ6wAAECAwQFBgcICQoLDA0ODy021cpGVWKZ_eEwCGM4BLLF_5CV9dOPmrhuVUPgJobwOz7J" ++
    "cbmrR64jVmpU4IwqDA==")

/-- Fernet on one text, under one key and with one seed. -/
def sampleFernet : Fernet where
  Seed := Unit
  encrypt key _ data := if key = sampleKey ∧ data = sampleText then some sampleToken else none
  decrypt key token := if key = sampleKey ∧ token = sampleToken then some sampleText else none
  decrypt_encrypt := by
    intro key _ data token h
    split_ifs at h with hdata
    rw [if_pos ⟨hdata.1, (Option.some.inj h).symm⟩, hdata.2]

/-- A directory with one file. -/
def oneFile (name : Str) (content : Bytes) : VaultFiles := fun other =>
  if other = name then some content else none

theorem encryptFile_sample : encryptFile sampleFernet (oneFile "a.json" sampleText) "a.json" sampleKey () =
    .ok [.write (lit "a.json" ++ vaultSuffix) (vaultHeader ++ sampleToken), .remove "a.json"] := by
  have htoken : sampleFernet.encrypt sampleKey () sampleText = some sampleToken := by simp [sampleFernet]
  have hfile : oneFile "a.json" sampleText "a.json" = some sampleText := if_pos rfl
  unfold encryptFile
  rw [hfile]
  show (encryptBytes sampleFernet sampleKey () sampleText).bind _ = _
  unfold encryptBytes
  rw [htoken]
  rfl

/-- Every point of a decryption holds the text exactly when the name has the suffix, or another
file holds the text, or the text is empty and the vault is kept. -/
theorem decryptFile_holds_iff {files : VaultFiles} {name : Str} {blob data : Bytes} {keepVault : Bool}
    {effects : List (Effect Str UInt8)} (hblob : files name = some blob)
    (hdata : decryptBytes F key blob = .ok data)
    (h : decryptFile F files name key keepVault = .ok effects) :
    (∀ t, Points files effects t → Held F key t data) ↔
      vaultSuffix <:+ name ∨ (∃ other content, other ≠ name ∧ files other = some content ∧
        Opens F key content data) ∨ (data = [] ∧ keepVault = true) := by
  obtain ⟨target, blob', data', htarget, hblob', hdata', rfl⟩ := decryptFile_eq_ok h
  obtain rfl : blob = blob' := Option.some.inj (hblob.symm.trans hblob')
  obtain rfl : data = data' := Except.ok.inj (hdata.symm.trans hdata')
  have hstart : Held F key files data := ⟨name, blob, hblob, .sealed hdata (.plain data)⟩
  by_cases hsuffix : vaultSuffix <:+ name
  · -- the vault stands beside the file that is written, until that is complete
    refine ⟨fun _ => .inl hsuffix, fun _ t ht => ?_⟩
    have hne := (vaultTarget?_ne_iff htarget).mpr hsuffix
    rcases points_decrypt.mp ht with rfl | ⟨part, -, rfl⟩ | ⟨-, rfl⟩
    · exact hstart
    · exact held_update_of_ne hne.symm hblob (.sealed hdata (.plain data))
    · exact held_update_of_ne hne (Function.update_self ..) (.plain data)
  · -- the file is written over
    obtain rfl : target = name := by
      by_contra hne
      exact hsuffix ((vaultTarget?_ne_iff htarget).mp hne)
    constructor
    · intro hall
      have hempty := hall _ (points_decrypt.mpr (.inr (.inl ⟨[], List.nil_prefix, rfl⟩)))
      rcases hempty.of_update with ⟨part, hpart, hopens⟩ | helse
      · rw [← Option.some.inj hpart] at hopens
        cases hkeep : keepVault with
        | true => exact .inr (.inr ⟨opens_nil.mp hopens, rfl⟩)
        | false =>
          have hlast := hall _ (points_decrypt.mpr (.inr (.inr ⟨hkeep, rfl⟩)))
          rw [Function.update_idem] at hlast
          rcases hlast.of_update with ⟨part, hpart, -⟩ | helse
          · cases hpart
          · exact .inr (.inl helse)
      · exact .inr (.inl helse)
    · rintro (hs | ⟨other, content, hne, hcontent, hopens⟩ | ⟨rfl, rfl⟩) t ht
      · exact absurd hs hsuffix
      · rcases points_decrypt.mp ht with rfl | ⟨part, -, rfl⟩ | ⟨-, rfl⟩
        · exact hstart
        · exact held_update_of_ne hne hcontent hopens
        · rw [Function.update_idem]
          exact held_update_of_ne hne hcontent hopens
      · rcases points_decrypt.mp ht with rfl | ⟨part, hpart, rfl⟩ | ⟨hkeep, -⟩
        · exact hstart
        · rw [List.prefix_nil.mp hpart]
          exact held_update_self (.plain [])
        · cases hkeep

theorem decryptBytes_sample :
    decryptBytes sampleFernet sampleKey (vaultHeader ++ sampleToken) = .ok sampleText := by
  have htoken : sampleFernet.decrypt sampleKey sampleToken = some sampleText := by simp [sampleFernet]
  rw [decryptBytes, List.take_left, if_pos rfl, List.drop_left, htoken]

/-- A vault under another name is not safe to decrypt, with nothing else in the directory. -/
theorem decryptFile_holds_iff_renamed :
    ∃ effects, decryptFile sampleFernet (oneFile "a" (vaultHeader ++ sampleToken)) "a" sampleKey false =
        .ok effects ∧
      ¬∀ t, Points (oneFile "a" (vaultHeader ++ sampleToken)) effects t →
        Held sampleFernet sampleKey t sampleText := by
  have hfile : oneFile "a" (vaultHeader ++ sampleToken) "a" = some (vaultHeader ++ sampleToken) := if_pos rfl
  have hrun : decryptFile sampleFernet (oneFile "a" (vaultHeader ++ sampleToken)) "a" sampleKey false =
      .ok [.write "a" sampleText, .remove "a"] := by
    rw [decryptFile, show vaultTarget? "a" = some (lit "a") by decide, hfile]
    show (decryptBytes sampleFernet sampleKey (vaultHeader ++ sampleToken)).bind _ = _
    rw [decryptBytes_sample]
    rfl
  refine ⟨_, hrun, fun hall => ?_⟩
  rcases (decryptFile_holds_iff hfile decryptBytes_sample hrun).mp hall with
    hsuffix | ⟨other, content, hne, hother, -⟩ | ⟨-, hkeep⟩
  · exact absurd hsuffix (by decide)
  · rw [oneFile, if_neg hne] at hother
    cases hother
  · cases hkeep

/-! ## Runs -/

/-- The calls under one key. -/
inductive VaultCall (F : Fernet) where
  | encrypt (name : Str) (seed : F.Seed)
  | decrypt (name : Str) (keepVault : Bool)

def VaultCall.effects (key : Bytes) (files : VaultFiles) :
    VaultCall F → Except VaultFailure (List (Effect Str UInt8))
  | .encrypt name seed => encryptFile F files name key seed
  | .decrypt name keepVault => decryptFile F files name key keepVault

/-- The call writes over no file, and decrypts only what has the suffix. -/
def VaultCall.Careful (files : VaultFiles) : VaultCall F → Prop
  | .encrypt name _ => files (name ++ vaultSuffix) = none
  | .decrypt name _ => vaultSuffix <:+ name ∧ ∀ target ∈ vaultTarget? name, files target = none

/-- The directories that careful calls reach.  A call that is interrupted is left where it
stopped, and the next one starts there. -/
inductive Reached (F : Fernet) (key : Bytes) (files : VaultFiles) : VaultFiles → Prop
  | start : Reached F key files files
  | call {s t : VaultFiles} {effects : List (Effect Str UInt8)} (h : Reached F key files s)
      (c : VaultCall F) (careful : c.Careful s) (run : c.effects key s = .ok effects)
      (stop : Points s effects t) : Reached F key files t

/-- A careful call keeps plain texts at each of its points. -/
theorem VaultCall.Careful.keeps {s t : VaultFiles} {c : VaultCall F} (hcareful : c.Careful s)
    {effects : List (Effect Str UInt8)} (h : c.effects key s = .ok effects) (ht : Points s effects t)
    {data : Bytes} (hdata : PlainData data) (hheld : Held F key s data) : Held F key t data := by
  cases c with
  | encrypt name seed =>
    obtain ⟨found, blob, hfound, hblob, rfl⟩ := encryptFile_eq_ok h
    rcases points_write_remove.mp ht with rfl | ⟨part, -, rfl⟩ | rfl
    · exact hheld
    · exact hheld.write hcareful part
    · -- what is removed is in the vault
      refine hheld.move hcareful (append_vaultSuffix_ne name) fun content hcontent hopens => ?_
      obtain rfl : content = found := Option.some.inj (hcontent.symm.trans hfound)
      exact .sealed (decryptBytes_encryptBytes hblob) hopens
  | decrypt name keepVault =>
    obtain ⟨target, blob, inner, htarget, hblob, hinner, rfl⟩ := decryptFile_eq_ok h
    have hnone := hcareful.2 target htarget
    rcases points_decrypt.mp ht with rfl | ⟨part, -, rfl⟩ | ⟨-, rfl⟩
    · exact hheld
    · exact hheld.write hnone part
    · -- what is removed was written out
      refine hheld.move hnone ((vaultTarget?_ne_iff htarget).mpr hcareful.1) fun content hcontent hopens => ?_
      obtain rfl : content = blob := Option.some.inj (hcontent.symm.trans hblob)
      exact hopens.of_decrypt hdata hinner

/-- No run of careful calls loses a plain text, wherever its calls are interrupted. -/
theorem careful_keeps {files t : VaultFiles} (h : Reached F key files t) {data : Bytes}
    (hdata : PlainData data) (hheld : Held F key files data) : Held F key t data := by
  induction h with
  | start => exact hheld
  | call _ c careful run stop ih => exact careful.keeps run stop hdata ih

/-- One encryption, cut off in the write. -/
theorem careful_keeps_cut :
    Held sampleFernet sampleKey
      (Function.update (oneFile "a.json" sampleText) (lit "a.json" ++ vaultSuffix) (some [])) sampleText := by
  have hcut : Points (oneFile "a.json" sampleText)
      [.write (lit "a.json" ++ vaultSuffix) (vaultHeader ++ sampleToken), .remove "a.json"]
      (Function.update (oneFile "a.json" sampleText) (lit "a.json" ++ vaultSuffix) (some [])) :=
    points_write_remove.mpr (.inr (.inl ⟨[], List.nil_prefix, rfl⟩))
  have hcareful : (VaultCall.encrypt (F := sampleFernet) "a.json" ()).Careful (oneFile "a.json" sampleText) :=
    if_neg (append_vaultSuffix_ne "a.json")
  have hreached : Reached sampleFernet sampleKey (oneFile "a.json" sampleText)
      (Function.update (oneFile "a.json" sampleText) (lit "a.json" ++ vaultSuffix) (some [])) :=
    .call .start (.encrypt "a.json" ()) hcareful encryptFile_sample hcut
  have hplain : PlainData sampleText := by
    rw [PlainData]
    decide
  exact careful_keeps hreached hplain ⟨"a.json", sampleText, if_pos rfl, .plain sampleText⟩

end DevRepro.Snapshots
