import KaqTranslator.Deployment.Artifacts
import KaqTranslator.Deployment.Registration

/-!
# Model packages of several accounts (`deployment/promote_model.py`)

A package is named by an ARN, which says which package it is (`PackageRef.arn_injective`).  The metadata of a
promoted package are those of its source and the two fields that say where it comes from
(`lookup_buildTargetCustomerMetadata`); a package that training or `deploy.main` registers has neither of
them.
-/

namespace KaqTranslator

def buildModelPackageArn (region account_id model_package_group_name : Str) (version : ℕ) : Str :=
  "arn:aws:sagemaker:".toList ++ (region ++ ':' :: (account_id ++ (":model-package/".toList ++
    (model_package_group_name ++ '/' :: natStr version))))

/-- The AWS account of an environment, with its region -/
@[ext]
structure Account where
  region : Str
  accountId : Str
  region_no_colon : ∀ c ∈ region, c ≠ ':'
  accountId_no_colon : ∀ c ∈ accountId, c ≠ ':'
  deriving DecidableEq

/-- A package: its account, and its index in the Model Package Group.  Versions count from 1. -/
abbrev PackageRef := Account × ℕ

def PackageRef.arn (model_package_group_name : Str) (ref : PackageRef) : Str :=
  buildModelPackageArn ref.1.region ref.1.accountId model_package_group_name (ref.2 + 1)

private theorem append_cons_inj {c : Char} {a a' b b' : Str} (ha : ∀ d ∈ a, d ≠ c) (ha' : ∀ d ∈ a', d ≠ c)
    (h : a ++ c :: b = a' ++ c :: b') : a = a' ∧ b = b' := by
  induction a generalizing a' with
  | nil =>
    cases a' with
    | nil => exact ⟨rfl, (List.cons.inj h).2⟩
    | cons d a' => exact absurd (List.cons.inj h).1.symm (ha' d (List.mem_cons_self ..))
  | cons d a ih =>
    cases a' with
    | nil => exact absurd (List.cons.inj h).1 (ha d (List.mem_cons_self ..))
    | cons d' a' =>
      obtain ⟨rfl, htail⟩ := List.cons.inj h
      obtain ⟨rfl, hb⟩ := ih (fun e he => ha e (List.mem_cons_of_mem _ he))
        (fun e he => ha' e (List.mem_cons_of_mem _ he)) htail
      exact ⟨rfl, hb⟩

/-- An ARN says which package it is. -/
theorem PackageRef.arn_injective (group : Str) : Function.Injective (PackageRef.arn group) := by
  rintro ⟨account, i⟩ ⟨account', i'⟩ h
  have hbody := List.append_cancel_left h
  obtain ⟨hregion, hbody⟩ := append_cons_inj account.region_no_colon account'.region_no_colon hbody
  obtain ⟨hid, hbody⟩ := append_cons_inj account.accountId_no_colon account'.accountId_no_colon hbody
  have htail := List.append_cancel_left (List.append_cancel_left hbody)
  have hversion := natStr_injective (List.cons.inj htail).2
  exact Prod.ext (Account.ext hregion hid) (Nat.succ.inj hversion)

section Packages

variable {B : Type}

/-- `DescribeModelPackage`, for a package that exists -/
def Registration.describe (g : Registration B) (arn : Str) : Description :=
  ⟨some g.package.modelApprovalStatus, arn, g.package.image, g.package.customerMetadata⟩

def Registration.setStatus (g : Registration B) (approvalStatus : ModelApprovalStatus) : Registration B :=
  { g with package := { g.package with modelApprovalStatus := approvalStatus } }

/-- The package that `register_model_package` registers -/
def trainedPackage (approvalStatus : ModelApprovalStatus) (image modelDataUrl : Str)
    (runMetadata : RunMetadata) (modelCardText : Str) : ModelPackage :=
  ⟨approvalStatus, image, modelDataUrl,
    (customerMetadataProperties runMetadata modelCardText).entries.map fun p => (p.1, p.2)⟩

/-- The same package, whatever its approval is by now -/
structure Registration.Same (g g' : Registration B) : Prop where
  image : g'.package.image = g.package.image
  modelDataUrl : g'.package.modelDataUrl = g.package.modelDataUrl
  customerMetadata : g'.package.customerMetadata = g.package.customerMetadata
  uploaded : g'.uploaded = g.uploaded

theorem Registration.Same.refl (g : Registration B) : g.Same g := ⟨rfl, rfl, rfl, rfl⟩

theorem Registration.Same.trans {g g' g'' : Registration B} (h : g.Same g') (h' : g'.Same g'') : g.Same g'' :=
  ⟨h'.image.trans h.image, h'.modelDataUrl.trans h.modelDataUrl, h'.customerMetadata.trans h.customerMetadata,
    h'.uploaded.trans h.uploaded⟩

end Packages

/-! ### Metadata -/

def promotedFromEnvironment : Str := "promoted_from_environment".toList

def promotedFromArn : Str := "promoted_from_model_package_arn".toList

/-- The package has been registered by a promotion. -/
def ModelPackage.Promoted (p : ModelPackage) : Prop := p.customerMetadata.lookup promotedFromArn ≠ none

private theorem lookup_replace_self {metadata : CustomerMetadata} {key : Str}
    (h : key ∈ metadata.map Prod.fst)
    (value : Str) :
    (metadata.map fun p => if p.1 = key then (key, value) else p).lookup key = some value := by
  induction metadata with
  | nil => exact (List.not_mem_nil h).elim
  | cons p metadata ih =>
    by_cases hp : p.1 = key
    · simp [hp]
    · rw [List.map_cons, List.mem_cons] at h
      have hne : (key == p.1) = false := beq_eq_false_iff_ne.2 (Ne.symm hp)
      rw [List.map_cons, if_neg hp, List.lookup_cons, hne]
      exact ih (h.resolve_left (Ne.symm hp))

private theorem lookup_replace_of_ne {key key' : Str} (h : key' ≠ key) (metadata : CustomerMetadata)
    (value : Str) :
    (metadata.map fun p => if p.1 = key then (key, value) else p).lookup key' = metadata.lookup key' := by
  induction metadata with
  | nil => rfl
  | cons p metadata ih =>
    by_cases hp : p.1 = key
    · have hne : (key' == p.1) = false := beq_eq_false_iff_ne.2 (hp ▸ h)
      have hne' : (key' == key) = false := beq_eq_false_iff_ne.2 h
      rw [List.map_cons, if_pos hp, List.lookup_cons, List.lookup_cons, hne, hne', ih]
    · rw [List.map_cons, if_neg hp, List.lookup_cons, List.lookup_cons, ih]

theorem lookup_setItem (metadata : CustomerMetadata) (key value key' : Str) :
    (metadata.setItem key value).lookup key' = if key' = key then some value else metadata.lookup key' := by
  unfold CustomerMetadata.setItem
  split
  · rename_i hmem
    split
    · rename_i hkey
      rw [hkey, lookup_replace_self hmem]
    · rename_i hkey
      exact lookup_replace_of_ne hkey metadata value
  · rename_i hmem
    rw [List.lookup_append, List.lookup_singleton]
    by_cases hkey : key' = key
    · have hnone : metadata.lookup key' = none := by
        rw [List.lookup_eq_none_iff]
        intro p hp
        rw [hkey, bne_iff_ne]
        exact fun heq => hmem (heq ▸ List.mem_map_of_mem hp)
      rw [hnone, if_pos hkey, if_pos (beq_iff_eq.2 hkey), Option.none_or]
    · rw [if_neg hkey, if_neg (mt beq_iff_eq.1 hkey), Option.or_none]

theorem lookup_update_of_notMem {metadata other : CustomerMetadata} {key : Str}
    (h : key ∉ other.map Prod.fst) : (metadata.update other).lookup key = metadata.lookup key := by
  unfold CustomerMetadata.update
  induction other generalizing metadata with
  | nil => rfl
  | cons p other ih =>
    rw [List.map_cons, List.mem_cons, not_or] at h
    rw [List.foldl_cons, ih h.2, lookup_setItem, if_neg h.1]

/-- A target package has the metadata of its source, and where it comes from. -/
theorem lookup_buildTargetCustomerMetadata (metadata : CustomerMetadata) (sourceEnvironment arn key : Str) :
    (buildTargetCustomerMetadata metadata sourceEnvironment arn).lookup key =
      if key = promotedFromArn then some arn
      else if key = promotedFromEnvironment then some sourceEnvironment else metadata.lookup key := by
  rw [buildTargetCustomerMetadata, lookup_setItem, lookup_setItem]
  rfl

theorem keys_matched (fields : List (Str × Option Str)) {key : Str}
    (h : key ∈ (matched fields).map Prod.fst) : key ∈ fields.map Prod.fst := by
  obtain ⟨q, hq, rfl⟩ := List.mem_map.1 h
  obtain ⟨p, hp, hsome⟩ := List.mem_filterMap.1 hq
  obtain ⟨v, -, rfl⟩ := Option.map_eq_some_iff.1 hsome
  exact List.mem_map_of_mem hp

theorem not_promoted_inference (text sourceModelDataUrl : Str) (package : ModelPackage)
    (h : package.customerMetadata = buildInferenceCustomerMetadata (parseModelCardRunMetadata text)
      (parseModelCardMetrics text) sourceModelDataUrl) : ¬ package.Promoted := by
  have hmetrics : promotedFromArn ∉ (parseModelCardMetrics text).map Prod.fst := fun hmem =>
    absurd (keys_matched _ hmem) (by simp only [List.map_cons, List.map_nil]; decide)
  have hrun : promotedFromArn ∉ (parseModelCardRunMetadata text).map Prod.fst := fun hmem =>
    absurd (keys_matched _ hmem) (by simp only [List.map_cons, List.map_nil]; decide)
  have hfirst : List.lookup promotedFromArn [("artifact_type".toList, "inference".toList),
      ("source_model_data_url".toList, sourceModelDataUrl)] = none := by
    rw [List.lookup_eq_none_iff]
    simp only [List.forall_mem_cons]
    exact ⟨by decide, by decide, fun _ h => (List.not_mem_nil h).elim⟩
  rw [ModelPackage.Promoted, h, buildInferenceCustomerMetadata, lookup_update_of_notMem hmetrics,
    lookup_update_of_notMem hrun]
  exact fun hne => hne hfirst

theorem not_promoted_trained (approvalStatus : ModelApprovalStatus) (image modelDataUrl : Str)
    (runMetadata : RunMetadata) (modelCardText : Str) :
    ¬ (trainedPackage approvalStatus image modelDataUrl runMetadata modelCardText).Promoted := by
  have hmetrics : promotedFromArn ∉ ((parseModelCardMetrics modelCardText).map fun p =>
      (⟨p.1, p.2⟩ : Σ _ : Str, Str)).keys := by
    intro hmem
    have hkeys : promotedFromArn ∈ (parseModelCardMetrics modelCardText).map Prod.fst := by
      rwa [List.keys, List.map_map] at hmem
    exact absurd (keys_matched _ hkeys) (by simp only [List.map_cons, List.map_nil]; decide)
  have hhyper : promotedFromArn ∉ (runMetadata.hyperparameters.entries.map fun p =>
      (⟨"hp_".toList ++ p.1, p.2.str⟩ : Σ _ : Str, Str)).keys := by
    intro hmem
    rw [List.keys, List.map_map] at hmem
    obtain ⟨p, -, heq⟩ := List.mem_map.1 hmem
    exact absurd (List.cons.inj heq).1 (by decide)
  have hlookup : (customerMetadataProperties runMetadata modelCardText).lookup promotedFromArn = none := by
    unfold customerMetadataProperties buildCustomerMetadata
    dsimp only
    rw [Dict.lookup_update_of_notMem hmetrics, Dict.lookup_update_of_notMem hhyper]
    refine Dict.lookup_update_of_notMem ?_ ∅
    simp only [List.keys, List.map_cons, List.map_nil]
    decide
  rw [ModelPackage.Promoted, not_not, List.lookup_eq_none_iff]
  intro p hp
  obtain ⟨q, hq, rfl⟩ := List.mem_map.1 hp
  rw [bne_iff_ne]
  exact fun heq => List.dlookup_eq_none.1 hlookup (heq ▸ List.mem_map_of_mem hq)

end KaqTranslator
