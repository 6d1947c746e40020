import KaqTranslator.Deployment.Promotion

/-!
# Where a package comes from

In every state of a run a registered package has a lineage (`PackageLineage`): it was promoted from a package
that had been approved, which in turn may have been promoted, and so on to a package that was not.
`promotion_lineage` says what the packages of a lineage have in common.

A promotion has read its source before it publishes, and publishes before the package is registered: the
invariant (`PromotionInv`) is about the promotions and the uploads that await their registration, too.
-/

namespace KaqTranslator

open EventMachine

variable {B : Type}

section Lineages

/-- A package that was promoted from another one, `R` being what their artifacts have in common. -/
structure CopyOf (group : Str) (R : Registration B → Registration B → Prop) (Approved : PackageRef → Prop)
    (g : Registration B) (source : PackageRef) (g' : Registration B) : Prop where
  image : g.package.image = g'.package.image
  customerMetadata : ∃ sourceEnvironment, g.package.customerMetadata =
    buildTargetCustomerMetadata g'.package.customerMetadata sourceEnvironment (source.arn group)
  artifacts : R g g'
  approved : Approved source

/-- The promotions by which a package comes from its origin, which was not promoted -/
inductive PackageLineage (group : Str) (R : Registration B → Registration B → Prop)
    (Approved : PackageRef → Prop) (w : Environments B) : PackageRef → PackageRef → Prop where
  | origin {ref : PackageRef} {g : Registration B} (hg : w.package ref = some g)
      (hnew : ¬ g.package.Promoted) :
    PackageLineage group R Approved w ref ref
  | promoted {ref source origin : PackageRef} {g g' : Registration B} (hg : w.package ref = some g)
    (hg' : w.package source = some g') (hcopy : CopyOf group R Approved g source g')
    (hsource : PackageLineage group R Approved w source origin) : PackageLineage group R Approved w ref origin

/-- What a promotion has read, of the package `g'` -/
structure Snapshot (group : Str) (R : Registration B → Registration B → Prop) (Approved : PackageRef → Prop)
    (w : Environments B) (p : Promotion B) (g' : Registration B) : Prop where
  package : w.package p.source = some g'
  image : p.description.image = g'.package.image
  customerMetadata : p.description.customerMetadata = g'.package.customerMetadata
  arn : p.description.modelPackageArn = p.source.arn group
  modelDataUrl : p.modelDataUrl = g'.package.modelDataUrl
  approved : Approved p.source
  downloaded : ∀ g : Registration B, p.phase = .downloaded g.uploaded → R g g'

structure PromotionInv (group : Str) (R : Registration B → Registration B → Prop)
    (Approved : PackageRef → Prop) (w : Environments B) : Prop where
  lineage : ∀ ref g, w.package ref = some g → ∃ origin, PackageLineage group R Approved w ref origin
  snapshot : ∀ p ∈ w.promotions, ∃ g', Snapshot group R Approved w p g'
  awaiting : ∀ q ∈ w.awaiting, ¬ q.2.package.Promoted ∨
    ∃ source g', w.package source = some g' ∧ CopyOf group R Approved q.2 source g'

variable {group : Str} {R R' : Registration B → Registration B → Prop}
    {Approved Approved' : PackageRef → Prop}
  {w w' : Environments B}

/-- What `R` says of two packages, `R'` says of them, whatever their approval is by then. -/
def OfSame (R R' : Registration B → Registration B → Prop) : Prop :=
  ∀ g g' g₁ g₁' : Registration B, g.Same g₁ → g'.Same g₁' → R g g' → R' g₁ g₁'

theorem CopyOf.mono (hR : OfSame R R') (hA : ∀ ref, Approved ref → Approved' ref)
    {g g' g₁ g₁' : Registration B}
    {source : PackageRef} (h : CopyOf group R Approved g source g') (hg : g.Same g₁) (hg' : g'.Same g₁') :
    CopyOf group R' Approved' g₁ source g₁' := by
  refine ⟨?_, ?_, hR g g' g₁ g₁' hg hg' h.artifacts, hA _ h.approved⟩
  · rw [hg.image, hg'.image, h.image]
  · rw [hg.customerMetadata, hg'.customerMetadata]
    exact h.customerMetadata

theorem PackageLineage.mono (hR : OfSame R R') (hA : ∀ ref, Approved ref → Approved' ref)
    (hstays : ∀ ref g, w.package ref = some g → ∃ g', w'.package ref = some g' ∧ g.Same g')
    {ref origin : PackageRef}
    (h : PackageLineage group R Approved w ref origin) : PackageLineage group R' Approved' w' ref origin := by
  induction h with
  | @origin ref g hg hnew =>
    obtain ⟨g₁, hg₁, hsame⟩ := hstays ref g hg
    refine .origin hg₁ ?_
    rw [ModelPackage.Promoted, hsame.customerMetadata]
    exact hnew
  | @promoted ref source origin g g' hg hg' hcopy _ ih =>
    obtain ⟨g₁, hg₁, hsame⟩ := hstays ref g hg
    obtain ⟨g₁', hg₁', hsame'⟩ := hstays source g' hg'
    exact .promoted hg₁ hg₁' (hcopy.mono hR hA hsame hsame') ih

theorem Snapshot.mono (hR : OfSame R R) (hA : ∀ ref, Approved ref → Approved' ref)
    (hstays : ∀ ref g, w.package ref = some g → ∃ g', w'.package ref = some g' ∧ g.Same g')
    {p : Promotion B} {g' : Registration B} (h : Snapshot group R Approved w p g') :
    ∃ g₁', Snapshot group R Approved' w' p g₁' := by
  obtain ⟨g₁', hg₁', hsame⟩ := hstays p.source g' h.package
  refine ⟨g₁', hg₁', h.image.trans hsame.image.symm, h.customerMetadata.trans hsame.customerMetadata.symm,
    h.arn, h.modelDataUrl.trans hsame.modelDataUrl.symm, hA _ h.approved, fun g hphase => ?_⟩
  exact hR g g' g g₁' (.refl g) hsame (h.downloaded g hphase)

theorem CopyOf.lookup_arn {g g' : Registration B} {source : PackageRef}
    (h : CopyOf group R Approved g source g') :
    g.package.customerMetadata.lookup promotedFromArn = some (source.arn group) := by
  obtain ⟨sourceEnvironment, hmetadata⟩ := h.customerMetadata
  rw [hmetadata, lookup_buildTargetCustomerMetadata, if_pos rfl]

theorem CopyOf.promoted {g g' : Registration B} {source : PackageRef}
    (h : CopyOf group R Approved g source g') : g.package.Promoted := by
  rw [ModelPackage.Promoted, h.lookup_arn]
  exact Option.some_ne_none _

theorem CopyOf.lookup_eq {g g' : Registration B} {source : PackageRef}
    (h : CopyOf group R Approved g source g')
    {key : Str} (harn : key ≠ promotedFromArn) (henvironment : key ≠ promotedFromEnvironment) :
    g.package.customerMetadata.lookup key = g'.package.customerMetadata.lookup key := by
  obtain ⟨sourceEnvironment, hmetadata⟩ := h.customerMetadata
  rw [hmetadata, lookup_buildTargetCustomerMetadata, if_neg harn, if_neg henvironment]

/-- The ARNs in the metadata lead to one origin. -/
theorem PackageLineage.origin_unique {ref origin origin' : PackageRef}
    (h : PackageLineage group R Approved w ref origin)
    (h' : PackageLineage group R' Approved' w ref origin') : origin = origin' := by
  induction h generalizing origin' with
  | @origin ref g hg hnew =>
    cases h' with
    | origin => rfl
    | promoted hg₁ _ hcopy _ =>
      obtain rfl := Option.some.inj (hg.symm.trans hg₁)
      exact absurd hcopy.promoted hnew
  | @promoted ref source origin g g' hg hg' hcopy _ ih =>
    cases h' with
    | origin hg₁ hnew =>
      obtain rfl := Option.some.inj (hg.symm.trans hg₁)
      exact absurd hcopy.promoted hnew
    | @promoted _ source' _ g₁ g₁' hg₁ _ hcopy' hsource' =>
      obtain rfl := Option.some.inj (hg.symm.trans hg₁)
      obtain rfl : source = source' :=
        PackageRef.arn_injective group (Option.some.inj (hcopy.lookup_arn.symm.trans hcopy'.lookup_arn))
      exact ih hsource'

/-- What the packages of a lineage have in common -/
theorem PackageLineage.common {ref origin : PackageRef} (h : PackageLineage group R Approved w ref origin)
    {g : Registration B} (hg : w.package ref = some g) :
    ∃ g₀, w.package origin = some g₀ ∧ ¬ g₀.package.Promoted ∧ g.package.image = g₀.package.image ∧
      ∀ key, key ≠ promotedFromArn → key ≠ promotedFromEnvironment →
        g.package.customerMetadata.lookup key = g₀.package.customerMetadata.lookup key := by
  induction h generalizing g with
  | @origin ref g₁ hg₁ hnew =>
    obtain rfl := Option.some.inj (hg₁.symm.trans hg)
    exact ⟨g₁, hg₁, hnew, rfl, fun _ _ _ => rfl⟩
  | @promoted ref source origin g₁ g' hg₁ hg' hcopy _ ih =>
    obtain rfl := Option.some.inj (hg₁.symm.trans hg)
    obtain ⟨g₀, hg₀, hnew, himage, hkeys⟩ := ih hg'
    refine ⟨g₀, hg₀, hnew, hcopy.image.trans himage, fun key harn henvironment => ?_⟩
    exact (hcopy.lookup_eq harn henvironment).trans (hkeys key harn henvironment)

/-- A promotion that goes on has still read what it has read. -/
theorem Snapshot.setPhase {p : Promotion B} {g' : Registration B} (h : Snapshot group R Approved w p g')
    {phase : PromotionPhase B} (hphase : ∀ g : Registration B, phase = .downloaded g.uploaded → R g g') :
    Snapshot group R Approved w { p with phase := phase } g' :=
  ⟨h.package, h.image, h.customerMetadata, h.arn, h.modelDataUrl, h.approved, hphase⟩

theorem snapshot_of_step {e : PromotionEvent B} (hR : OfSame R R) (hA : ∀ ref, Approved ref → Approved' ref)
    (hnow : ∀ ref g, w.package ref = some g → g.package.modelApprovalStatus = .approved → Approved' ref)
    (hread : ∀ ref (g g' : Registration B), w.package ref = some g' →
      (w.environment ref.1).modelData g'.package.modelDataUrl = some g.uploaded → R g g')
    (hinv : PromotionInv group R Approved w) (h : w.step group e = some w') :
    ∀ p ∈ w'.promotions, ∃ g', Snapshot group R Approved' w' p g' := by
  have hstays := (Environments.grows_of_step h).stays
  have hold : ∀ p ∈ w.promotions, ∃ g', Snapshot group R Approved' w' p g' := by
    intro p hp
    obtain ⟨g', hg'⟩ := hinv.snapshot p hp
    exact hg'.mono hR hA hstays
  cases e with
  | stored account key artifact =>
    obtain rfl := Option.some.inj h
    exact hold
  | registerTrained account approvalStatus image modelDataUrl runMetadata modelCardText =>
    obtain ⟨artifact, -, rfl⟩ := Option.map_eq_some_iff.1 h
    exact hold
  | deploy account r =>
    obtain rfl := Option.some.inj h
    intro p hp
    refine hold p ?_
    cases hpublication : r.publication with
    | none => rwa [hpublication] at hp
    | some publication =>
      rwa [hpublication, Option.elim_some, Environments.promotions_upload] at hp
  | review ref approvalStatus =>
    obtain ⟨g, -, rfl⟩ := Option.map_eq_some_iff.1 h
    exact hold
  | promote source sourceEnvironment target =>
    obtain rfl | ⟨g, hg, hstatus, rfl⟩ := Environments.eq_of_promote h
    · exact hold
    · intro p hp
      rcases List.mem_append.1 hp with hp | hp
      · exact hold p hp
      · obtain rfl := List.mem_singleton.1 hp
        exact ⟨g, hg, rfl, rfl, rfl, rfl, hnow source g hg hstatus, fun _ hphase => by cases hphase⟩
  | download i =>
    obtain ⟨p, hp, -, rfl⟩ := Environments.eq_of_download h
    obtain ⟨g', hg'⟩ := hinv.snapshot p (List.mem_of_getElem? hp)
    intro p' hmem
    rcases List.mem_or_eq_of_mem_set hmem with hmem | rfl
    · exact hold p' hmem
    · refine Snapshot.mono hR hA hstays (hg'.setPhase fun g hphase => hread p.source g g' hg'.package ?_)
      rw [← hg'.modelDataUrl]
      -- the object is there
      cases hobject : (w.environment p.source.1).modelData p.modelDataUrl with
      | none =>
        rw [hobject] at hphase
        cases hphase
      | some artifact =>
        rw [hobject] at hphase
        cases hphase
        rfl
  | upload i fault =>
    obtain ⟨p, artifact, hp, -, -, rfl⟩ := Environments.eq_of_upload h
    obtain ⟨g', hg'⟩ := hinv.snapshot p (List.mem_of_getElem? hp)
    intro p' hmem
    rw [Environments.setPromotion, Environments.promotions_upload] at hmem
    rcases List.mem_or_eq_of_mem_set hmem with hmem | rfl
    · exact hold p' hmem
    · exact Snapshot.mono hR hA hstays (hg'.setPhase fun _ hphase => by cases hphase)
  | register i =>
    obtain ⟨q, -, rfl⟩ := Option.map_eq_some_iff.1 h
    exact hold

/-- What a promotion publishes is a copy of the package that it has read. -/
theorem Snapshot.copyOf {p : Promotion B} {g' : Registration B} (h : Snapshot group R Approved w p g')
    {artifact : B} (hphase : p.phase = .downloaded artifact) (url : Str) :
    CopyOf group R Approved ⟨(p.publication artifact).package url, artifact⟩ p.source g' := by
  refine ⟨h.image, ⟨p.sourceEnvironment, ?_⟩, h.downloaded _ hphase, h.approved⟩
  rw [← h.customerMetadata, ← h.arn]
  rfl

theorem awaiting_copyOf_of_step {e : PromotionEvent B} (hR : OfSame R R)
    (hA : ∀ ref, Approved ref → Approved' ref)
    (hinv : PromotionInv group R Approved w) (h : w.step group e = some w') :
    ∀ q ∈ w'.awaiting, ¬ q.2.package.Promoted ∨
      ∃ source g', w'.package source = some g' ∧ CopyOf group R Approved' q.2 source g' := by
  have hlater : ∀ {g g' : Registration B} {source : PackageRef}, w.package source = some g' →
      CopyOf group R Approved g source g' →
      ∃ source g', w'.package source = some g' ∧ CopyOf group R Approved' g source g' := by
    intro g g' source hg' hcopy
    obtain ⟨g₁', hg₁', hsame⟩ := (Environments.grows_of_step h).stays source g' hg'
    exact ⟨source, g₁', hg₁', hcopy.mono hR hA (.refl g) hsame⟩
  intro q hq
  rcases Environments.awaiting_of_step h q hq with hold | ⟨publication, hpublishes, -, hpackage⟩
  · refine (hinv.awaiting q hold).imp_right ?_
    rintro ⟨source, g', hg', hcopy⟩
    exact hlater hg' hcopy
  · rcases hpublishes with hnew | ⟨p, hp, hphase, heq⟩
    · rw [hpackage]
      exact .inl (hnew _)
    · obtain ⟨g', hg'⟩ := hinv.snapshot p hp
      rw [hpackage, heq]
      exact .inr (hlater hg'.package (hg'.copyOf hphase _))

theorem promotionInv_of_step {e : PromotionEvent B} (hR : OfSame R R)
    (hA : ∀ ref, Approved ref → Approved' ref)
    (hnow : ∀ ref g, w.package ref = some g → g.package.modelApprovalStatus = .approved → Approved' ref)
    (hread : ∀ ref (g g' : Registration B), w.package ref = some g' →
      (w.environment ref.1).modelData g'.package.modelDataUrl = some g.uploaded → R g g')
    (hinv : PromotionInv group R Approved w) (h : w.step group e = some w') :
    PromotionInv group R Approved' w' := by
  have hgrows := Environments.grows_of_step h
  have hlineage : ∀ ref g, w.package ref = some g → ∃ origin,
      PackageLineage group R Approved' w' ref origin := by
    intro ref g hg
    obtain ⟨origin, horigin⟩ := hinv.lineage ref g hg
    exact ⟨origin, horigin.mono hR hA hgrows.stays⟩
  refine ⟨fun ref g₁ hg₁ => ?_, snapshot_of_step hR hA hnow hread hinv h,
    awaiting_copyOf_of_step hR hA hinv h⟩
  rcases hgrows.new ref g₁ hg₁ with ⟨g, hg, -⟩ | hnew | ⟨account, hawaiting⟩
  · exact hlineage ref g hg
  · exact ⟨ref, .origin hg₁ hnew⟩
  · rcases hinv.awaiting _ hawaiting with hnew | ⟨source, g', hg', hcopy⟩
    · exact ⟨ref, .origin hg₁ hnew⟩
    · -- the target of a promotion
      obtain ⟨origin, horigin⟩ := hlineage source g' hg'
      obtain ⟨g₁', hg₁', hsame⟩ := hgrows.stays source g' hg'
      exact ⟨origin, .promoted hg₁ hg₁' (hcopy.mono hR hA (.refl g₁) hsame) horigin⟩

theorem promotionInv_init (bucket : Account → Bucket) (objects : Account → Str → Option B) :
    PromotionInv group R Approved (.init bucket objects) :=
  ⟨nofun, nofun, nofun⟩

end Lineages

/-- In some state of the run the package was there and was approved. -/
def WasApproved (group : Str) (w₀ : Environments B) (es : List (PromotionEvent B))
    (ref : PackageRef) : Prop :=
  ∃ pre post u g, es = pre ++ post ∧ run (Environments.step group) w₀ pre = some u ∧ u.package ref = some g ∧
    g.package.modelApprovalStatus = .approved

section Runs

variable {group : Str} {bucket : Account → Bucket} {objects : Account → Str → Option B}
  {es : List (PromotionEvent B)} {w : Environments B}

theorem promotionInv_of_run (hrun : run (Environments.step group) (.init bucket objects) es = some w) :
    PromotionInv group (fun _ _ => True) (WasApproved group (.init bucket objects) es) w := by
  have hinv : run (Environments.step group) (.init bucket objects) es = some w ∧
      PromotionInv group (fun _ _ => True) (WasApproved group (.init bucket objects) es) w := by
    refine history_invariant (P := fun _ _ => True)
      (I := fun es w => run (Environments.step group) (.init bucket objects) es = some w ∧
        PromotionInv group (fun _ _ => True) (WasApproved group (.init bucket objects) es) w) ?_
      ⟨rfl, promotionInv_init bucket objects⟩ (stepsMeet_true _ es) hrun
    rintro es u e v ⟨hu, hinv⟩ - hstep
    refine ⟨run_append_cons_eq_some.2 ⟨u, v, hu, hstep, rfl⟩,
      promotionInv_of_step (fun _ _ _ _ _ _ _ => trivial) ?_ ?_ (fun _ _ _ _ _ => trivial) hinv hstep⟩
    · rintro ref ⟨pre, post, u', g, rfl, hu', hg, hstatus⟩
      exact ⟨pre, post ++ [e], u', g, List.append_assoc .., hu', hg, hstatus⟩
    · exact fun ref g hg hstatus => ⟨es, [e], u, g, rfl, hu, hg, hstatus⟩
  exact hinv.2

/-- A package has one origin, from which it comes by promotions of packages that were approved; it has the
image of its origin, and its metadata but for what says from where it was promoted. -/
theorem promotion_lineage (hrun : run (Environments.step group) (.init bucket objects) es = some w)
    {ref : PackageRef} {g : Registration B} (hg : w.package ref = some g) :
    ∃ origin g₀,
      PackageLineage group (fun _ _ => True) (WasApproved group (.init bucket objects) es) w ref origin ∧
      (∀ origin', PackageLineage group (fun _ _ => True)
        (WasApproved group (.init bucket objects) es) w ref origin' → origin' = origin) ∧
      w.package origin = some g₀ ∧ ¬ g₀.package.Promoted ∧ g.package.image = g₀.package.image ∧
      ∀ key, key ≠ promotedFromArn → key ≠ promotedFromEnvironment →
        g.package.customerMetadata.lookup key = g₀.package.customerMetadata.lookup key := by
  obtain ⟨origin, horigin⟩ := (promotionInv_of_run hrun).lineage ref g hg
  obtain ⟨g₀, hg₀, hnew, himage, hkeys⟩ := horigin.common hg
  exact ⟨origin, g₀, horigin, fun _ h => h.origin_unique horigin, hg₀, hnew, himage, hkeys⟩

def sampleAccount (accountId : String) (h : ∀ c ∈ accountId.toList, c ≠ ':' := by simp) : Account :=
  ⟨"us-east-1".toList, accountId.toList, by simp, h⟩

def devAccount : Account := sampleAccount "111111111111"

def qaAccount : Account := sampleAccount "222222222222"

def prodAccount : Account := sampleAccount "333333333333"

/-- A package goes from dev to qa, and from there to prod. -/
def promotionRun : List (PromotionEvent ℕ) :=
  [.deploy devAccount ⟨false, "s3://data/model.tar.gz".toList, .pendingManualApproval, "image".toList,
    some [],
      some 14, none⟩, .register 0,
    .review (devAccount, 0) .approved,
    .promote (devAccount, 0) "dev".toList qaAccount, .download 0, .upload 0 none, .register 0,
    .promote (qaAccount, 0) "qa".toList prodAccount, .download 1, .upload 1 none, .register 0]

def sampleEnvironments : Environments ℕ := .init (fun _ => ⟨"data".toList, by simp⟩) fun _ _ => none

theorem promotion_lineage_prod :
    ∃ w g, run (Environments.step "models".toList) sampleEnvironments promotionRun = some w ∧
      w.package (prodAccount, 0) = some g ∧
      ∃ origin g₀, PackageLineage "models".toList (fun _ _ => True)
          (WasApproved "models".toList sampleEnvironments promotionRun) w (prodAccount, 0) origin ∧
        (∀ origin', PackageLineage "models".toList (fun _ _ => True)
          (WasApproved "models".toList sampleEnvironments promotionRun) w (prodAccount, 0) origin' →
            origin' = origin) ∧
        w.package origin = some g₀ ∧ ¬ g₀.package.Promoted ∧ g.package.image = g₀.package.image ∧
        ∀ key, key ≠ promotedFromArn → key ≠ promotedFromEnvironment →
          g.package.customerMetadata.lookup key = g₀.package.customerMetadata.lookup key :=
  ⟨_, _, rfl, rfl, promotion_lineage rfl rfl⟩

end Runs

end KaqTranslator
