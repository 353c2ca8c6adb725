import LoopProof.Planner.Canonical

/-!
# The identity of claims

The id of a claim hashes its fields and the root of its dependencies. It is the same for claims
that differ only in the order of keys, in the order of dependencies and in their repetition; where
hashes do not collide, no other claim has it.
-/

namespace LoopProof.Canonical

/-! ## Hashed inputs -/

/-- Different texts have different bytes. -/
theorem utf8_injective {left right : List Char} (h : utf8 left = utf8 right) : left = right := by
  have hbytes : left.utf8Encode = right.utf8Encode := by
    unfold List.utf8Encode
    exact congrArg List.toByteArray h
  apply String.ofList_injective
  apply String.toByteArray_inj.mp
  rw [String.toByteArray_ofList, String.toByteArray_ofList, hbytes]

/-- One domain's input determines the canonical text. -/
theorem canonicalInput_inj {domain : String} {left right : Json} :
    canonicalInput domain left = canonicalInput domain right ↔
      Json.canonicalJson left = Json.canonicalJson right := by
  constructor
  · intro h
    unfold canonicalInput at h
    exact utf8_injective (List.append_cancel_left h)
  · intro h
    rw [canonicalInput, canonicalInput, h]

/-- Different pairs of nodes are hashed from different bytes. -/
theorem nodeInput_injective {a b c d : B256} (h : nodeInput a b = nodeInput c d) :
    (a, b) = (c, d) := by
  obtain ⟨hleft, hright⟩ := List.append_inj (List.cons.inj h).2
    (by rw [length_beBytes, length_beBytes])
  have hbound (hash : B256) : hash.val < 256 ^ 32 := by
    have := hash.isLt
    norm_num at this ⊢
    exact this
  rw [Fin.ext (beBytes_injective (hbound a) (hbound c) hleft),
    Fin.ext (beBytes_injective (hbound b) (hbound d) hright)]

/-- A dependency's input begins with its domain. -/
theorem head_dependencyInput (dependency : Json) :
    (canonicalInput "dependency" dependency).head? = some 100 := by
  rfl

/-- A dependency is not hashed from the bytes of two nodes. -/
theorem canonicalInput_ne_nodeInput (dependency : Json) (left right : B256) :
    canonicalInput "dependency" dependency ≠ nodeInput left right := by
  intro h
  have hhead := congrArg List.head? h
  rw [head_dependencyInput] at hhead
  exact absurd (Option.some.inj hhead) (by decide)

/-- A dependency is not hashed from the bytes of the empty root. -/
theorem canonicalInput_ne_zero (dependency : Json) :
    canonicalInput "dependency" dependency ≠ [0] := by
  intro h
  have hhead := congrArg List.head? h
  rw [head_dependencyInput] at hhead
  exact absurd (Option.some.inj hhead) (by decide)

/-- What is hashed when a claim is finalized. -/
inductive Hashed (platform : Platform) (claim : Claim) : Set Bytes
  | dependency (dependency : Json) (h : dependency ∈ claim.dependencies) :
    Hashed platform claim (canonicalInput "dependency" dependency)
  | noNodes : Hashed platform claim [0]
  | node (pair : B256 × B256) (h : pair ∈ Merkle.setPairs (hashNodes platform)
      ((finalizeClaim platform claim).dependencies.map IdentifiedDependency.dependencyId)) :
    Hashed platform claim (nodeInput pair.1 pair.2)
  | claimId : Hashed platform claim (canonicalInput "claim-id"
      (.object (claimBody claim (finalizeClaim platform claim).dependencyRoot)))
  | claimLeaf : Hashed platform claim (canonicalInput "claim-leaf"
      (.object (claimLeaf claim (finalizeClaim platform claim).dependencyRoot
        (finalizeClaim platform claim).claimId)))

/-! ## Dependencies -/

section Dependencies

variable {platform : Platform} {claim left right : Claim}

/-- The ids of a finalized claim, in order. -/
abbrev FinalizedClaim.dependencyIds (claim : FinalizedClaim) : List B256 :=
  claim.dependencies.map IdentifiedDependency.dependencyId

/-- The different canonical texts of the dependencies. -/
def dependencyTexts (claim : Claim) : List (List Char) :=
  (dedupeBy Json.canonicalJson claim.dependencies).map Json.canonicalJson

/-- No text of a dependency is kept twice. -/
theorem nodup_dependencyTexts : (dependencyTexts claim).Nodup := nodup_dedupeBy _

/-- The kept texts are those of the dependencies. -/
theorem mem_dependencyTexts {text : List Char} :
    text ∈ dependencyTexts claim ↔
      ∃ dependency ∈ claim.dependencies, Json.canonicalJson dependency = text := by
  rw [dependencyTexts, mem_map_dedupeBy, List.mem_map]

/-- The id of a dependency with the given text. -/
def textId (platform : Platform) (text : List Char) : B256 :=
  platform.sha256 (utf8 "dependency".toList ++ [0] ++ utf8 text)

/-- The ids are those of the different texts. -/
theorem dependencyIds_perm :
    (finalizeClaim platform claim).dependencyIds.Perm
      ((dependencyTexts claim).map (textId platform)) := by
  have hids : (finalizeClaim platform claim).dependencyIds.Perm
      ((dedupeDependencies platform claim.dependencies).map
        (hashCanonical platform "dependency")) := by
    have hsorted := @sortBy_perm _ (compareOn IdentifiedDependency.dependencyId)
      ((dedupeDependencies platform claim.dependencies).map fun dependency =>
        IdentifiedDependency.mk dependency (hashCanonical platform "dependency" dependency))
    have hmapped := hsorted.map IdentifiedDependency.dependencyId
    rwa [List.map_map] at hmapped
  have hdedupe : (dedupeDependencies platform claim.dependencies).Perm
      (dedupeBy Json.canonicalJson claim.dependencies) := sortBy_perm _
  rw [dependencyTexts, List.map_map]
  exact hids.trans (hdedupe.map _)

/-- The ids of a finalized claim are in order. -/
theorem pairwise_dependencyIds :
    (finalizeClaim platform claim).dependencyIds.Pairwise fun a b => a ≤ b := by
  apply List.pairwise_map.mpr
  apply (pairwise_sortBy _).imp
  intro a b hle
  exact Nat.isLE_compare.mp hle

/-- Claims of the same dependency texts have the same ids in the same order. -/
theorem dependencyIds_eq (h : (dependencyTexts left).Perm (dependencyTexts right)) :
    (finalizeClaim platform left).dependencyIds = (finalizeClaim platform right).dependencyIds := by
  apply List.Perm.eq_of_pairwise (fun _ _ _ _ => le_antisymm) pairwise_dependencyIds
    pairwise_dependencyIds
  exact (dependencyIds_perm.trans (h.map _)).trans dependencyIds_perm.symm

/-- Equal up to the order and the repetition of dependencies and the order of their keys. -/
def SameDependencies (left right : Claim) : Prop :=
  (∀ dependency ∈ left.dependencies, ∃ other ∈ right.dependencies,
    Json.Reordered dependency other) ∧
  ∀ other ∈ right.dependencies, ∃ dependency ∈ left.dependencies,
    Json.Reordered dependency other

/-- Claims have the same dependencies if the kept texts are the same in some order. -/
theorem sameDependencies_iff :
    SameDependencies left right ↔ (dependencyTexts left).Perm (dependencyTexts right) := by
  rw [List.perm_ext_iff_of_nodup nodup_dependencyTexts nodup_dependencyTexts]
  have hsame {dependency other : Json} (hleft : dependency ∈ left.dependencies)
      (hright : other ∈ right.dependencies) :
      Json.Reordered dependency other ↔
        Json.canonicalJson dependency = Json.canonicalJson other :=
    (Json.canonicalJson_eq_iff (left.lawfulDependencies _ hleft)
      (right.lawfulDependencies _ hright)).symm
  simp only [mem_dependencyTexts]
  constructor
  · intro h text
    constructor
    · rintro ⟨dependency, hdependency, rfl⟩
      obtain ⟨other, hother, heq⟩ := h.1 dependency hdependency
      exact ⟨other, hother, ((hsame hdependency hother).mp heq).symm⟩
    · rintro ⟨other, hother, rfl⟩
      obtain ⟨dependency, hdependency, heq⟩ := h.2 other hother
      exact ⟨dependency, hdependency, (hsame hdependency hother).mp heq⟩
  · intro h
    constructor
    · intro dependency hdependency
      obtain ⟨other, hother, heq⟩ := (h _).mp ⟨dependency, hdependency, rfl⟩
      exact ⟨other, hother, (hsame hdependency hother).mpr heq.symm⟩
    · intro other hother
      obtain ⟨dependency, hdependency, heq⟩ := (h _).mpr ⟨other, hother, rfl⟩
      exact ⟨dependency, hdependency, (hsame hdependency hother).mpr heq⟩

end Dependencies

/-! ## Claims -/

/-- Equal up to the order of keys, and the order and the repetition of dependencies. -/
def SameClaim (left right : Claim) : Prop :=
  Json.Reordered (.object left.fields) (.object right.fields) ∧ SameDependencies left right

section Identity

variable {platform : Platform} {left right : Claim}

/-- Different texts of single code units are different strings. -/
theorem jsText_injective {a b : List Char} (ha : ∀ char ∈ a, char.toNat < 65536)
    (hb : ∀ char ∈ b, char.toNat < 65536) (h : jsText a = jsText b) : a = b := by
  have hread {text : List Char} (htext : ∀ char ∈ text, char.toNat < 65536) :
      (jsText text).map (fun unit => Char.ofNat unit.toNat) = text := by
    rw [jsText, List.map_map]
    conv_rhs => rw [← List.map_id text]
    apply List.map_congr_left
    intro char hchar
    have hunit : (UInt16.ofNat char.toNat).toNat = char.toNat := by
      rw [UInt16.toNat_ofNat', Nat.mod_eq_of_lt (htext char hchar)]
    change Char.ofNat (UInt16.ofNat char.toNat).toNat = char
    rw [hunit, Char.ofNat_toNat]
  rw [← hread ha, h, hread hb]

/-- Different hashes are different values. -/
theorem hashValue_injective {a b : B256} (h : hashValue a = hashValue b) : a = b := by
  have hdigits (hash : B256) :
      ∀ char ∈ '0' :: 'x' :: hexText (beBytes 32 hash.val), char.toNat < 65536 := by
    have hdigit : ∀ n < 16, n.digitChar.toNat < 65536 := by decide
    intro char hchar
    rcases List.mem_cons.mp hchar with rfl | hchar
    · decide
    rcases List.mem_cons.mp hchar with rfl | hchar
    · decide
    obtain ⟨byte, _, hpair⟩ := List.mem_flatMap.mp hchar
    have hbyte : byte.toNat < 256 := byte.toNat_lt
    simp only [hexPair, List.mem_cons, List.not_mem_nil, or_false] at hpair
    rcases hpair with rfl | rfl
    · exact hdigit _ (by omega)
    · exact hdigit _ (by omega)
  have htext := jsText_injective (hdigits a) (hdigits b) (Json.string.inj h)
  have hbytes := hexText_injective (List.cons.inj (List.cons.inj htext).2).2
  have hbound (hash : B256) : hash.val < 256 ^ 32 := by
    have := hash.isLt
    norm_num at this ⊢
    exact this
  exact Fin.ext (beBytes_injective (hbound a) (hbound b) hbytes)

/-- An object with one more key is lawful. -/
theorem lawful_append {fields : List (JsString × Json)} {name : JsString} {value : Json}
    (h : Json.Lawful (.object fields)) (hname : name ∉ fields.map Prod.fst)
    (hvalue : value.Lawful) : Json.Lawful (.object (fields ++ [(name, value)])) := by
  cases h with
  | object hkeys hfields =>
    constructor
    · rw [List.map_append, List.map_singleton, ← List.concat_eq_append]
      exact hkeys.concat hname
    · intro entry hentry
      rcases List.mem_append.mp hentry with hentry | hentry
      · exact hfields entry hentry
      · rw [List.mem_singleton.mp hentry]
        exact hvalue

/-- Objects with different keys are reordered exactly when their entries are the same. -/
theorem reordered_object_iff {fields fields' : List (JsString × Json)}
    (h : Json.Lawful (.object fields)) (h' : Json.Lawful (.object fields')) :
    Json.Reordered (.object fields) (.object fields') ↔
      (fields.map Json.sortedEntry).Perm (fields'.map Json.sortedEntry) := by
  rw [← Json.canonicalJson_eq_iff h h', Json.canonicalJson_inj, Json.sorted, Json.sorted,
    Json.sortedEntries_eq, Json.sortedEntries_eq, Json.object.injEq]
  have hkeys : ((fields.map Json.sortedEntry).map Prod.fst).Nodup := by
    have hsame : (Prod.fst ∘ Json.sortedEntry) = (Prod.fst : JsString × Json → JsString) :=
      funext fun entry => by rw [Function.comp_apply, Json.sortedEntry_eq]
    rw [List.map_map, hsame]
    cases h with
    | object hkeys _ => exact hkeys
  constructor
  · intro hsorted
    have hleft := @sortBy_perm _ (compareOn Prod.fst) (fields.map Json.sortedEntry)
    rw [hsorted] at hleft
    exact hleft.symm.trans (sortBy_perm _)
  · exact Json.sortBy_key_perm hkeys

/-- Reordered objects with one more key have one value there and are reordered without it. -/
theorem reordered_append {fields fields' : List (JsString × Json)} {name : JsString}
    {value value' : Json} (h : Json.Lawful (.object fields)) (h' : Json.Lawful (.object fields'))
    (hname : name ∉ fields.map Prod.fst) (hname' : name ∉ fields'.map Prod.fst)
    (hvalue : value.Lawful) (hvalue' : value'.Lawful) :
    Json.Reordered (.object (fields ++ [(name, value)]))
        (.object (fields' ++ [(name, value')])) ↔
      Json.Reordered (.object fields) (.object fields') ∧ value.sorted = value'.sorted := by
  rw [reordered_object_iff (lawful_append h hname hvalue) (lawful_append h' hname' hvalue'),
    reordered_object_iff h h', List.map_append, List.map_append, List.map_singleton,
    List.map_singleton, Json.sortedEntry_eq, Json.sortedEntry_eq]
  constructor
  · intro hperm
    have hmem := hperm.mem_iff.mp (List.mem_append_right _ (List.mem_singleton_self _))
    have hsame : value.sorted = value'.sorted := by
      rcases List.mem_append.mp hmem with hfields | hlast
      · obtain ⟨entry, hentry, heq⟩ := List.mem_map.mp hfields
        rw [Json.sortedEntry_eq] at heq
        exact absurd (List.mem_map.mpr ⟨entry, hentry, (Prod.mk.inj heq).1⟩) hname'
      · exact (Prod.mk.inj (List.mem_singleton.mp hlast)).2
    rw [hsame] at hperm
    exact ⟨(List.perm_append_right_iff _).mp hperm, hsame⟩
  · rintro ⟨hperm, hsame⟩
    rw [hsame]
    exact hperm.append_right _

/-- The fields of a claim are a lawful object. -/
theorem lawful_fields (claim : Claim) : Json.Lawful (.object claim.fields) :=
  .object claim.keys claim.lawful

/-- A hash is a lawful value. -/
theorem lawful_hashValue (hash : B256) : (hashValue hash).Lawful := .string _

/-- Different hashes are different values. -/
theorem sorted_hashValue {a b : B256} : (hashValue a).sorted = (hashValue b).sorted ↔ a = b :=
  ⟨fun h => hashValue_injective h, fun h => by rw [h]⟩

/-- The body of a claim is a lawful object. -/
theorem lawful_claimBody (claim : Claim) (root : B256) :
    Json.Lawful (.object (claimBody claim root)) :=
  lawful_append (lawful_fields claim) (claim.fresh _ (by decide)) (lawful_hashValue root)

/-- The bodies of two claims are reordered when their fields are and their roots are equal. -/
theorem reordered_claimBody {root root' : B256} :
    Json.Reordered (.object (claimBody left root)) (.object (claimBody right root')) ↔
      Json.Reordered (.object left.fields) (.object right.fields) ∧ root = root' := by
  rw [← sorted_hashValue]
  exact reordered_append (lawful_fields left) (lawful_fields right)
    (left.fresh _ (by decide)) (right.fresh _ (by decide)) (lawful_hashValue root)
    (lawful_hashValue root')

/-- The body of a claim has no id yet. -/
theorem claimId_not_mem (claim : Claim) (root : B256) :
    key "claimId" ∉ (claimBody claim root).map Prod.fst := by
  rw [claimBody, List.map_append, List.mem_append, not_or]
  refine ⟨claim.fresh _ (by decide), ?_⟩
  rw [List.map_singleton, List.mem_singleton]
  exact (by decide : key "claimId" ≠ key "dependencyRoot")

/-- The leaves of two claims are reordered when their bodies are and their ids are equal. -/
theorem reordered_claimLeaf {root root' claimId claimId' : B256} :
    Json.Reordered (.object (claimLeaf left root claimId))
        (.object (claimLeaf right root' claimId')) ↔
      Json.Reordered (.object (claimBody left root)) (.object (claimBody right root')) ∧
        claimId = claimId' := by
  rw [← sorted_hashValue]
  exact reordered_append (lawful_claimBody left root) (lawful_claimBody right root')
    (claimId_not_mem left root) (claimId_not_mem right root') (lawful_hashValue claimId)
    (lawful_hashValue claimId')

/-- The leaf of a claim is a lawful object. -/
theorem lawful_claimLeaf (claim : Claim) (root claimId : B256) :
    Json.Lawful (.object (claimLeaf claim root claimId)) :=
  lawful_append (lawful_claimBody claim root) (claimId_not_mem claim root)
    (lawful_hashValue claimId)

/-- Reordered values have one hash under every domain. -/
theorem hashCanonical_eq {domain : String} {a b : Json} (ha : a.Lawful) (hb : b.Lawful)
    (h : Json.Reordered a b) :
    hashCanonical platform domain a = hashCanonical platform domain b := by
  rw [hashCanonical, hashCanonical,
    canonicalInput_inj.mpr ((Json.canonicalJson_eq_iff ha hb).mpr h)]

/-- Claims that are the same are finalized to the same hashes. -/
theorem SameClaim.hashes_eq (h : SameClaim left right) :
    (finalizeClaim platform left).dependencyIds = (finalizeClaim platform right).dependencyIds ∧
      (finalizeClaim platform left).dependencyRoot =
        (finalizeClaim platform right).dependencyRoot ∧
      (finalizeClaim platform left).claimId = (finalizeClaim platform right).claimId ∧
      (finalizeClaim platform left).leafHash = (finalizeClaim platform right).leafHash := by
  have hids := @dependencyIds_eq platform _ _ (sameDependencies_iff.mp h.2)
  have hroot : (finalizeClaim platform left).dependencyRoot =
      (finalizeClaim platform right).dependencyRoot := congrArg (merkleRoot platform) hids
  have hbody := reordered_claimBody.mpr ⟨h.1, hroot⟩
  have hid : (finalizeClaim platform left).claimId = (finalizeClaim platform right).claimId :=
    hashCanonical_eq (lawful_claimBody _ _) (lawful_claimBody _ _) hbody
  have hleaf := reordered_claimLeaf.mpr ⟨hbody, hid⟩
  exact ⟨hids, hroot, hid, hashCanonical_eq (lawful_claimLeaf _ _ _) (lawful_claimLeaf _ _ _) hleaf⟩

/-! ## Where hashes do not collide -/

/-- The hash does not collide on what is hashed for the two claims. -/
def CollisionFree (platform : Platform) (left right : Claim) : Prop :=
  Set.InjOn platform.sha256 (Hashed platform left ∪ Hashed platform right)

/-- What is hashed to the ids of the dependencies. -/
theorem exists_input_of_mem {id : B256} (h : id ∈ (finalizeClaim platform left).dependencyIds) :
    ∃ dependency ∈ left.dependencies,
      platform.sha256 (canonicalInput "dependency" dependency) = id := by
  obtain ⟨text, htext, rfl⟩ := List.mem_map.mp (dependencyIds_perm.mem_iff.mp h)
  obtain ⟨dependency, hdependency, rfl⟩ := mem_dependencyTexts.mp htext
  exact ⟨dependency, hdependency, rfl⟩

/-- Different dependencies have different ids. -/
theorem nodup_dependencyIds (hhash : Set.InjOn platform.sha256 (Hashed platform left)) :
    (finalizeClaim platform left).dependencyIds.Nodup := by
  rw [dependencyIds_perm.nodup_iff]
  apply List.Nodup.map_on _ nodup_dependencyTexts
  intro text htext text' htext' heq
  obtain ⟨dependency, hdependency, rfl⟩ := mem_dependencyTexts.mp htext
  obtain ⟨dependency', hdependency', rfl⟩ := mem_dependencyTexts.mp htext'
  exact canonicalInput_inj.mp
    (hhash (.dependency dependency hdependency) (.dependency dependency' hdependency') heq)

/-- The root determines the ids. -/
theorem dependencyIds_perm_of_root (hhash : CollisionFree platform left right)
    (hroot : (finalizeClaim platform left).dependencyRoot =
      (finalizeClaim platform right).dependencyRoot) :
    (finalizeClaim platform left).dependencyIds.Perm
      (finalizeClaim platform right).dependencyIds := by
  let inputs := Hashed platform left ∪ Hashed platform right
  let pairs : Set (B256 × B256) := {pair | nodeInput pair.1 pair.2 ∈ inputs}
  let ids : Set B256 := {id | ∃ dependency,
    canonicalInput "dependency" dependency ∈ inputs ∧
      platform.sha256 (canonicalInput "dependency" dependency) = id}
  have hnode : Merkle.Collisionless (hashNodes platform) pairs ids := by
    constructor
    · intro pair hpair pair' hpair' heq
      exact nodeInput_injective (hhash hpair hpair' heq)
    · rintro pair hpair ⟨dependency, hdependency, heq⟩
      exact canonicalInput_ne_nodeInput _ _ _ (hhash hdependency hpair heq)
  have hzero : ([0] : Bytes) ∈ inputs := .inl .noNodes
  have hempty : platform.sha256 [0] ∉ ids := by
    rintro ⟨dependency, hdependency, heq⟩
    exact canonicalInput_ne_zero _ (hhash hdependency hzero heq)
  have hnonempty : ∀ pair ∈ pairs, hashNodes platform pair.1 pair.2 ≠ platform.sha256 [0] := by
    intro pair hpair heq
    exact absurd (List.cons.inj (hhash hpair hzero heq)).1 (by decide)
  apply Merkle.perm_of_setRoot hnode (fun pair hpair => .inl (.node pair hpair)) _
    (fun pair hpair => .inr (.node pair hpair)) _ hempty hnonempty
    (nodup_dependencyIds (hhash.mono Set.subset_union_left))
    (nodup_dependencyIds (hhash.mono Set.subset_union_right)) hroot
  · intro id hid
    obtain ⟨dependency, hdependency, heq⟩ := exists_input_of_mem hid
    exact ⟨dependency, .inl (.dependency dependency hdependency), heq⟩
  · intro id hid
    obtain ⟨dependency, hdependency, heq⟩ := exists_input_of_mem hid
    exact ⟨dependency, .inr (.dependency dependency hdependency), heq⟩

/-- The ids determine the dependencies. -/
theorem sameDependencies_of_ids (hhash : CollisionFree platform left right)
    (hids : (finalizeClaim platform left).dependencyIds.Perm
      (finalizeClaim platform right).dependencyIds) : SameDependencies left right := by
  have hfind {a b : Claim} (ha : Hashed platform a ⊆ Hashed platform left ∪ Hashed platform right)
      (hb : Hashed platform b ⊆ Hashed platform left ∪ Hashed platform right)
      (hperm : (finalizeClaim platform a).dependencyIds.Perm
        (finalizeClaim platform b).dependencyIds) {dependency : Json}
      (hdependency : dependency ∈ a.dependencies) :
      ∃ other ∈ b.dependencies, Json.Reordered dependency other := by
    have htext := mem_dependencyTexts.mpr ⟨dependency, hdependency, rfl⟩
    have hid := (@dependencyIds_perm platform a).mem_iff.mpr (List.mem_map_of_mem htext)
    obtain ⟨other, hother, heq⟩ := exists_input_of_mem (hperm.mem_iff.mp hid)
    have hinput :=
      hhash (hb (.dependency other hother)) (ha (.dependency dependency hdependency)) heq
    refine ⟨other, hother, (Json.canonicalJson_eq_iff (a.lawfulDependencies _ hdependency)
      (b.lawfulDependencies _ hother)).mp (canonicalInput_inj.mp hinput).symm⟩
  have hleft := @Set.subset_union_left _ (Hashed platform left) (Hashed platform right)
  have hright := @Set.subset_union_right _ (Hashed platform left) (Hashed platform right)
  constructor
  · intro dependency hdependency
    exact hfind hleft hright hids hdependency
  · intro other hother
    obtain ⟨dependency, hdependency, hsame⟩ := hfind hright hleft hids.symm hother
    exact ⟨dependency, hdependency, hsame.symm⟩

/-- Where hashes do not collide, claims of one id are the same. -/
theorem sameClaim_of_claimId (hhash : CollisionFree platform left right)
    (h : (finalizeClaim platform left).claimId = (finalizeClaim platform right).claimId) :
    SameClaim left right := by
  have hinput := hhash (.inl .claimId) (.inr .claimId) h
  have hbody := (Json.canonicalJson_eq_iff (lawful_claimBody _ _) (lawful_claimBody _ _)).mp
    (canonicalInput_inj.mp hinput)
  obtain ⟨hfields, hroot⟩ := reordered_claimBody.mp hbody
  exact ⟨hfields, sameDependencies_of_ids hhash (dependencyIds_perm_of_root hhash hroot)⟩

end Identity

/-! ## Bundles -/

/-- The root of a bundle does not depend on the order of its finalized claims. -/
theorem reportRoot_perm {platform : Platform} {left right : List BundleClaim}
    (h : (left.map (finalizeBundleClaim platform)).Perm
      (right.map (finalizeBundleClaim platform))) :
    (finalizeBundle platform left).reportRoot = (finalizeBundle platform right).reportRoot := by
  apply Merkle.setRoot_perm
  apply List.Perm.map
  exact ((sortBy_perm _).trans h).trans (sortBy_perm _).symm

/-- Where hashes do not collide, claims have one id exactly when they are equal up to the order of
keys and the order and the repetition of dependencies; they then have the same root, leaf and ids
of dependencies. The root of a bundle does not depend on the order of its finalized claims. -/
theorem finalizeClaim_identity {platform : Platform} {left right : Claim}
    (hhash : CollisionFree platform left right) :
    ((finalizeClaim platform left).claimId = (finalizeClaim platform right).claimId ↔
      SameClaim left right) ∧
    (SameClaim left right →
      (finalizeClaim platform left).dependencyRoot =
          (finalizeClaim platform right).dependencyRoot ∧
        (finalizeClaim platform left).leafHash = (finalizeClaim platform right).leafHash ∧
        (finalizeClaim platform left).dependencies.map IdentifiedDependency.dependencyId =
          (finalizeClaim platform right).dependencies.map IdentifiedDependency.dependencyId) ∧
    ∀ bundle bundle' : List BundleClaim,
      (bundle.map (finalizeBundleClaim platform)).Perm
          (bundle'.map (finalizeBundleClaim platform)) →
        (finalizeBundle platform bundle).reportRoot =
          (finalizeBundle platform bundle').reportRoot := by
  refine ⟨⟨sameClaim_of_claimId hhash, ?_⟩, ?_, fun _ _ => reportRoot_perm⟩
  · intro h
    exact h.hashes_eq.2.2.1
  · intro h
    obtain ⟨hids, hroot, _, hleaf⟩ := @SameClaim.hashes_eq platform _ _ h
    exact ⟨hroot, hleaf, hids⟩

/-! ## Two claims -/

/-- A number that differs where the bytes do. -/
def samplePlatform : Platform where
  sha256 bytes := Fin.ofNat (2 ^ 256) (bytes.foldl (fun n byte => 257 * n + byte.toNat + 1) 0)
  localeCompare left right := compare (left.map Char.toNat) (right.map Char.toNat)

/-- A text as a value. -/
def sampleText (text : String) : Json := .string (key text)

/-- A dependency with its keys in one order. -/
def sampleDependency : Json :=
  .object [(key "seller", sampleText "0x0a"), (key "buyer", sampleText "0x14")]

/-- The same dependency with its keys in the other order. -/
def sampleDependencyReordered : Json :=
  .object [(key "buyer", sampleText "0x14"), (key "seller", sampleText "0x0a")]

private theorem lawful_texts {entries : List (JsString × Json)}
    (hkeys : (entries.map Prod.fst).Nodup)
    (h : ∀ entry ∈ entries, ∃ value, entry.2 = .string value ∨ entry.2 = .bool true) :
    Json.Lawful (.object entries) := by
  apply Json.Lawful.object hkeys
  intro entry hentry
  obtain ⟨value, hvalue | hvalue⟩ := h entry hentry
  · rw [hvalue]
    exact .string value
  · rw [hvalue]
    exact .bool true

/-- The sample is a lawful value. -/
theorem lawful_sampleDependency : sampleDependency.Lawful := by
  apply lawful_texts (by decide)
  intro entry hentry
  simp only [List.mem_cons, List.not_mem_nil, or_false] at hentry
  rcases hentry with rfl | rfl <;> exact ⟨_, .inl rfl⟩

/-- The reordered sample is a lawful value. -/
theorem lawful_sampleDependencyReordered : sampleDependencyReordered.Lawful := by
  apply lawful_texts (by decide)
  intro entry hentry
  simp only [List.mem_cons, List.not_mem_nil, or_false] at hentry
  rcases hentry with rfl | rfl <;> exact ⟨_, .inl rfl⟩

/-- A claim with one dependency. -/
def sampleClaim : Claim where
  fields := [(key "type", sampleText "P0_CLOSED_LOOP"), (key "proved", .bool true)]
  dependencies := [sampleDependency]
  keys := by decide
  fresh := by decide
  lawful := by
    intro entry hentry
    simp only [List.mem_cons, List.not_mem_nil, or_false] at hentry
    rcases hentry with rfl | rfl
    · exact .string _
    · exact .bool true
  lawfulDependencies := by
    intro dependency hdependency
    rw [List.mem_singleton.mp hdependency]
    exact lawful_sampleDependency

/-- The claim with its fields in another order and its dependency twice. -/
def sampleClaimReordered : Claim where
  fields := [(key "proved", .bool true), (key "type", sampleText "P0_CLOSED_LOOP")]
  dependencies := [sampleDependencyReordered, sampleDependency]
  keys := by decide
  fresh := by decide
  lawful := by
    intro entry hentry
    simp only [List.mem_cons, List.not_mem_nil, or_false] at hentry
    rcases hentry with rfl | rfl
    · exact .bool true
    · exact .string _
  lawfulDependencies := by
    intro dependency hdependency
    simp only [List.mem_cons, List.not_mem_nil, or_false] at hdependency
    rcases hdependency with rfl | rfl
    · exact lawful_sampleDependencyReordered
    · exact lawful_sampleDependency

/-- What is hashed for either of the two claims. -/
def sampleInputs : List Bytes :=
  let finalized := finalizeClaim samplePlatform sampleClaim
  [canonicalInput "dependency" sampleDependency, [0],
    canonicalInput "claim-id" (.object (claimBody sampleClaim finalized.dependencyRoot)),
    canonicalInput "claim-leaf"
      (.object (claimLeaf sampleClaim finalized.dependencyRoot finalized.claimId))]

/-- The inputs that the sample is hashed from. -/
theorem sampleClaim_hashed {input : Bytes} (h : Hashed samplePlatform sampleClaim input) :
    input ∈ sampleInputs := by
  cases h with
  | dependency dependency h =>
    rw [List.mem_singleton.mp h]
    exact List.mem_cons_self ..
  | noNodes => decide +kernel
  | node pair h =>
    have hnone : Merkle.setPairs (hashNodes samplePlatform)
        (finalizeClaim samplePlatform sampleClaim).dependencyIds = [] := by decide +kernel
    rw [hnone] at h
    cases h
  | claimId => decide +kernel
  | claimLeaf => decide +kernel

/-- The reordered sample is hashed from the same inputs. -/
theorem sampleClaimReordered_hashed {input : Bytes}
    (h : Hashed samplePlatform sampleClaimReordered input) : input ∈ sampleInputs := by
  cases h with
  | dependency dependency h =>
    simp only [sampleClaimReordered, List.mem_cons, List.not_mem_nil, or_false] at h
    rcases h with rfl | rfl <;> decide +kernel
  | noNodes => decide +kernel
  | node pair h =>
    have hnone : Merkle.setPairs (hashNodes samplePlatform)
        (finalizeClaim samplePlatform sampleClaimReordered).dependencyIds = [] := by
      decide +kernel
    rw [hnone] at h
    cases h
  | claimId => decide +kernel
  | claimLeaf => decide +kernel

/-- The sample platform has no collision on these inputs. -/
theorem sampleClaims_collisionFree :
    CollisionFree samplePlatform sampleClaim sampleClaimReordered := by
  have hnodup : (sampleInputs.map samplePlatform.sha256).Nodup := by decide +kernel
  have hmem : ∀ input ∈ Hashed samplePlatform sampleClaim ∪
      Hashed samplePlatform sampleClaimReordered, input ∈ sampleInputs := by
    intro input hinput
    rcases hinput with hinput | hinput
    · exact sampleClaim_hashed hinput
    · exact sampleClaimReordered_hashed hinput
  intro input hinput input' hinput' heq
  exact List.inj_on_of_nodup_map hnodup (hmem input hinput) (hmem input' hinput') heq

/-- Two claims with their keys in another order and a repeated dependency are the same. -/
theorem sampleClaims_same : SameClaim sampleClaim sampleClaimReordered :=
  (finalizeClaim_identity sampleClaims_collisionFree).1.mp (by decide +kernel)

/-- A bundle that lists a claim twice has the same set of claims as one that lists it once, and
another root, though nothing that is hashed for the two collides. -/
theorem repeatedClaim_reportRoot :
    (((nodeInput (finalizeClaim samplePlatform sampleClaim).leafHash
      (finalizeClaim samplePlatform sampleClaim).leafHash) :: sampleInputs).map
        samplePlatform.sha256).Nodup ∧
    (∀ claim, claim ∈ [BundleClaim.draft sampleClaim].map (finalizeBundleClaim samplePlatform) ↔
      claim ∈ [BundleClaim.draft sampleClaim, BundleClaim.draft sampleClaim].map
        (finalizeBundleClaim samplePlatform)) ∧
    (finalizeBundle samplePlatform [.draft sampleClaim]).reportRoot ≠
      (finalizeBundle samplePlatform [.draft sampleClaim, .draft sampleClaim]).reportRoot := by
  refine ⟨by decide +kernel, ?_, by decide +kernel⟩
  intro claim
  simp only [List.map_cons, List.map_nil, List.mem_cons, List.not_mem_nil, or_false, or_self]

end LoopProof.Canonical
