import Dapr.Acl.Policies
/-!
# Listed policies

The table of an accepted specification holds, under each key, the policy that was listed last under
it. A policy that is listed for a caller decides for the caller only if the last one under the
caller's key is for the caller too.
-/

namespace Dapr.Acl

open List

variable {lower : Text → Text} {isHTTP : Bool}

def AppPolicySpec.key (policy : AppPolicySpec) : String := getKeyForAppID policy.appName policy.ns

def Parsed.key (caller : Parsed) : String := getKeyForAppID caller.appID caller.ns

/-- The policy names the caller: its app id, namespace and trust domain. -/
def AppPolicySpec.isFor (caller : Parsed) (policy : AppPolicySpec) : Bool :=
  policy.appName = caller.appID && policy.ns = caller.ns && policy.trustDomain = caller.trustDomain

variable {caller : Parsed} {policy : AppPolicySpec} {spec : AccessControlSpec} {acl : AccessControlList}

theorem AppPolicySpec.isFor_iff : policy.isFor caller = true ↔
      policy.appName = caller.appID ∧ policy.ns = caller.ns ∧ policy.trustDomain = caller.trustDomain := by
  simp [isFor, and_assoc]

def lastUnder (policies : List AppPolicySpec) (key : String) : Option AppPolicySpec :=
  policies.reverse.find? (·.key = key)

/-- The policy that the table has for a caller: the last one under its key, if that is for the caller. -/
def inForce (policies : List AppPolicySpec) (caller : Parsed) : Option AppPolicySpec :=
  (lastUnder policies caller.key).filter (·.isFor caller)

/-! ## The table of an accepted specification -/

/-- No app of the specification was found invalid. -/
def Invalid.Clean (invalid : Invalid) : Prop :=
  invalid.trustDomain = [] ∧ invalid.ns = [] ∧ invalid.appName = false

/-- What is missing stays missing: a step that ends clean started clean, and entered its policy. -/
theorem clean_enterPolicy {state : Invalid × AList fun _ : String => PolicySpec}
    (h : (enterPolicy lower isHTTP state policy).1.Clean) : state.1.Clean ∧
      (enterPolicy lower isHTTP state policy).2 = state.2.insert policy.key (policy.parse lower isHTTP) := by
  by_cases htrust : policy.trustDomain = ""
  · simp [enterPolicy, htrust, Invalid.Clean] at h
  by_cases hns : policy.ns = ""
  · simp [enterPolicy, hns, Invalid.Clean] at h
  by_cases happ : state.1.appName = true ∨ policy.appName = ""
  · rcases happ with happ | happ <;> simp [enterPolicy, happ, Invalid.Clean] at h
  · rw [not_or] at happ
    simp only [enterPolicy, htrust, hns, happ, if_false, Bool.false_or, decide_false, Bool.false_eq_true, or_self,
      Invalid.Clean] at h ⊢
    exact ⟨h, rfl⟩

/-- While nothing is missing, every policy is entered under its key: the last one stays. -/
theorem lookup_enterPolicy (policies : List AppPolicySpec)
    (h : (policies.foldl (enterPolicy lower isHTTP) (⟨[], [], false⟩, ∅)).1.Clean) (key : String) :
    (policies.foldl (enterPolicy lower isHTTP) (⟨[], [], false⟩, ∅)).2.lookup key =
      (lastUnder policies key).map (·.parse lower isHTTP) := by
  induction policies using reverseRecOn with
  | nil => rfl
  | append_singleton policies policy ih =>
    rw [foldl_append, foldl_cons, foldl_nil] at h ⊢
    obtain ⟨hclean, htable⟩ := clean_enterPolicy h
    rw [htable, lastUnder]
    by_cases hkey : policy.key = key
    · subst hkey
      simp
    · rw [AList.lookup_insert_ne (Ne.symm hkey), ih hclean]
      simp [hkey, lastUnder]

theorem lookup_of_parse (h : parseAccessControlSpec lower isHTTP (some spec) = .ok (some acl)) :
    acl.defaultAction = spec.globalAction ∧
      ∀ key, acl.policySpec.lookup key = (lastUnder spec.policies key).map (·.parse lower isHTTP) := by
  simp only [parseAccessControlSpec] at h
  split at h
  · cases h
  split at h
  · cases h
  · rename_i hclean
    cases h
    refine ⟨rfl, lookup_enterPolicy spec.policies ?_⟩
    simpa [Invalid.Clean] using hclean

theorem key_of_isFor (h : policy.isFor caller = true) : policy.key = caller.key := by
  obtain ⟨happ, hns, -⟩ := AppPolicySpec.isFor_iff.1 h
  rw [AppPolicySpec.key, Parsed.key, happ, hns]

theorem appName_of_key (hkey : policy.key = caller.key) (hns : policy.ns = caller.ns) :
    policy.appName = caller.appID := by
  rw [AppPolicySpec.key, Parsed.key, getKeyForAppID, getKeyForAppID, hns, String.append_assoc, String.append_assoc] at hkey
  have h := congrArg String.toList hkey
  rw [String.toList_append, @String.toList_append caller.appID] at h
  exact String.toList_injective (append_cancel_right h)

/-- The table is asked by the key only, and what is found is compared in the namespace and the trust
domain. -/
theorem policyFor_of_parse (h : parseAccessControlSpec lower isHTTP (some spec) = .ok (some acl)) (caller : Parsed) :
    acl.policyFor caller = (inForce spec.policies caller).map (·.parse lower isHTTP) := by
  have hlookup : acl.policySpec.lookup (getKeyForAppID caller.appID caller.ns) =
      (lastUnder spec.policies caller.key).map (·.parse lower isHTTP) := (lookup_of_parse h).2 caller.key
  cases hlast : lastUnder spec.policies caller.key with
  | none => simp [AccessControlList.policyFor, hlookup, inForce, hlast]
  | some policy =>
    have hkey : policy.key = caller.key := by simpa using find?_some hlast
    simp only [AccessControlList.policyFor, hlookup, inForce, hlast, Option.filter_some]
    by_cases hfor : policy.isFor caller = true
    · obtain ⟨-, hns, htrust⟩ := AppPolicySpec.isFor_iff.1 hfor
      simp [AppPolicySpec.parse, hfor, hns, htrust]
    · have hother : policy.trustDomain = caller.trustDomain → policy.ns ≠ caller.ns := fun htrust hns =>
        hfor (AppPolicySpec.isFor_iff.2 ⟨appName_of_key hkey hns, hns, htrust⟩)
      by_cases htrust : policy.trustDomain = caller.trustDomain <;> simp [AppPolicySpec.parse, hfor, htrust, hother]

theorem lastUnder_of_isFor (hlisted : policy ∈ spec.policies) (hfor : policy.isFor caller = true) :
    ∃ last, lastUnder spec.policies caller.key = some last := by
  refine Option.isSome_iff_exists.1 ?_
  rw [lastUnder, find?_isSome]
  exact ⟨policy, mem_reverse.2 hlisted, by simpa using key_of_isFor hfor⟩

/-! ## Honoured policies -/

/-- The decisions for the caller are those of a policy that is listed for the caller, and that policy is
the one that is found. -/
def Honoured (lower : Text → Text) (isHTTP : Bool) (policies : List AppPolicySpec) (acl : AccessControlList)
    (caller : Parsed) : Prop :=
  ∃ policy ∈ policies, policy.isFor caller = true ∧ acl.policyFor caller = some (policy.parse lower isHTTP) ∧
    ∀ operation verb isHTTPCall,
      isOperationAllowedByAccessControlPolicy lower (some caller) operation verb isHTTPCall (some acl) =
        (policy.parse lower isHTTP).decide lower acl.defaultAction operation verb isHTTPCall

theorem honoured_of_inForce (h : parseAccessControlSpec lower isHTTP (some spec) = .ok (some acl))
    (hforce : inForce spec.policies caller = some policy) : Honoured lower isHTTP spec.policies acl caller := by
  have hfound : acl.policyFor caller = some (policy.parse lower isHTTP) := by
    rw [policyFor_of_parse h, hforce, Option.map_some]
  obtain ⟨hlast, hfor⟩ := Option.filter_eq_some_iff.1 hforce
  refine ⟨policy, ?_, hfor, hfound, fun operation verb isHTTPCall => ?_⟩
  · exact mem_reverse.1 (mem_of_find?_eq_some hlast)
  · simp [isOperationAllowedByAccessControlPolicy, hfound]

/-- The table has one policy for an app id and a namespace. A caller that policies are listed for is
decided by one of them exactly if the last policy under its key is for its trust domain too. -/
theorem honoured_iff {spec : AccessControlSpec} {acl : AccessControlList} {caller : Parsed} {policy : AppPolicySpec}
    (h : parseAccessControlSpec lower isHTTP (some spec) = .ok (some acl)) (hlisted : policy ∈ spec.policies)
    (hfor : policy.isFor caller = true) :
    Honoured lower isHTTP spec.policies acl caller ↔
      ∀ last, lastUnder spec.policies caller.key = some last → last.isFor caller = true := by
  constructor
  · rintro ⟨honoured, -, -, hfound, -⟩ last hlast
    by_contra hother
    rw [policyFor_of_parse h, inForce, hlast, Option.filter_some, if_neg hother] at hfound
    cases hfound
  · intro hall
    obtain ⟨last, hlast⟩ := lastUnder_of_isFor hlisted hfor
    have hforce : inForce spec.policies caller = some last := by
      rw [inForce, hlast, Option.filter_some, if_pos (hall last hlast)]
    exact honoured_of_inForce h hforce

/-- The app is closed to the shop of the domain `public`, and open to the shop of `partner`. -/
def twoDomains : AccessControlSpec where
  defaultAction := "allow"
  trustDomain := "public"
  appPolicies := some [⟨"shop", "deny", "public", "default", []⟩, ⟨"shop", "allow", "partner", "default", []⟩]

theorem partner_is_honoured :
    ∃ acl, parseAccessControlSpec id true (some twoDomains) = .ok (some acl) ∧
      Honoured id true twoDomains.policies acl ⟨"partner", "default", "shop"⟩ := by
  have hlisted : ⟨"shop", "allow", "partner", "default", []⟩ ∈ twoDomains.policies := by decide
  exact ⟨_, rfl, (honoured_iff rfl hlisted (by decide)).2 (by decide)⟩

/-- The policy of `partner` takes the place of the one of `public`, so the shop of `public` is asked only
for the global default. -/
theorem public_is_let_in :
    ∃ acl policy, parseAccessControlSpec id true (some twoDomains) = .ok (some acl) ∧ policy ∈ twoDomains.policies ∧
      policy.isFor ⟨"public", "default", "shop"⟩ = true ∧ acl.policyFor ⟨"public", "default", "shop"⟩ = none ∧
      ¬ Honoured id true twoDomains.policies acl ⟨"public", "default", "shop"⟩ ∧
      isOperationAllowedByAccessControlPolicy id (some ⟨"public", "default", "shop"⟩) [47, 97] .get true (some acl) =
        (true, "global") ∧
      (policy.parse id true).decide id acl.defaultAction [47, 97] .get true = (false, "app") := by
  refine ⟨_, ⟨"shop", "deny", "public", "default", []⟩, rfl, by decide, by decide, rfl, ?_, rfl, rfl⟩
  rintro ⟨policy, -, -, hfound, -⟩
  cases hfound

end Dapr.Acl
