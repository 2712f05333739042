import Vsector.Impl.Gateway.Rbac

/-!
# The policies in Python and in Rego

Of a tenant's roles, `check_permission` takes those of the namespace, or
those of `*` where there are none, and the Rego policy takes both, and lets
the tenant `test` do anything. So it permits at least what the local check
does, and they agree on a request exactly if the policies mirror each other
on it (`Mirrored`, `policies_agree_iff`), as the shipped ones do on all
(`mirrored_defaultPolicies`).
-/

namespace Vsector.Api

open Framework

variable {policies : Dict String (Dict String (List String))} {tenant ns action : String}

/-- The roles of a tenant in a namespace, or in `*`. -/
def rolesAt (policies : Dict String (Dict String (List String))) (tenant ns : String) :
    List String :=
  (((policies.get? tenant).getD ∅).get? ns).getD []

/-- One of the roles permits the action. -/
def Permits (roles : List String) (action : String) : Prop :=
  ∃ role ∈ roles, roleAllows role action = true

instance (roles : List String) (action : String) : Decidable (Permits roles action) :=
  inferInstanceAs (Decidable (∃ role ∈ roles, roleAllows role action = true))

/-- The policies give the tenant `test` what Rego gives it, and roles of a namespace take nothing
away that those of `*` permit. -/
structure Mirrored (policies : Dict String (Dict String (List String)))
    (tenant ns action : String) : Prop where
  test : tenant = "test" → Permits (rolesAt policies tenant ns) action ∨
    Permits (rolesAt policies tenant "*") action
  wildcard : rolesAt policies tenant ns ≠ [] → Permits (rolesAt policies tenant "*") action →
    Permits (rolesAt policies tenant ns) action

theorem rego_roleAllows (role action : String) :
    Rego.roleAllows role action = roleAllows role action := by
  unfold Rego.roleAllows roleAllows roleActions
  split
  all_goals simp_all

/-! ## What each of them permits -/

theorem checkPermission_ok_iff {g : Gateway}
    (hlocal : (g.opa.bind fun opa => opa tenant ns action) = none) :
    g.checkPermission tenant ns action = .ok () ↔ Permits (g.roles tenant ns) action := by
  unfold Gateway.checkPermission Permits
  rw [hlocal]
  dsimp only
  split
  · rename_i h
    exact ⟨fun _ => List.any_eq_true.mp h, fun _ => rfl⟩
  · rename_i h
    exact ⟨fun he => (by cases he), fun hp => absurd (List.any_eq_true.mpr hp) h⟩

theorem roles_of_nil {g : Gateway} (h : rolesAt g.policies tenant ns = []) :
    g.roles tenant ns = rolesAt g.policies tenant "*" := by
  unfold Gateway.roles
  rw [rolesAt] at h
  simp only [h, rolesAt]

theorem roles_of_ne_nil {g : Gateway} (h : rolesAt g.policies tenant ns ≠ []) :
    g.roles tenant ns = rolesAt g.policies tenant ns := by
  unfold Gateway.roles
  rw [rolesAt] at h
  dsimp only
  split
  · rename_i he
    exact absurd he h
  · rfl

theorem allowsIn_iff (ns : String) : (Rego.allowsIn policies tenant ns action).getD false = true ↔
    Permits (rolesAt policies tenant ns) action := by
  have hany : ∀ roles : List String, (if roles.any (Rego.roleAllows · action) then some true
      else none).getD false = true ↔
      Permits roles action := by
    intro roles
    simp only [rego_roleAllows]
    rw [Permits, ← List.any_eq_true]
    split
    · rename_i h
      exact ⟨fun _ => h, fun _ => rfl⟩
    · rename_i h
      exact ⟨fun he => (by cases he), fun hp => absurd hp h⟩
  unfold Rego.allowsIn rolesAt
  rcases policies.get? tenant with _ | namespaces
  · exact hany []
  · rcases hroles : namespaces.get? ns with _ | roles
    · simpa [hroles] using hany []
    · simpa [hroles] using hany roles

theorem allow_iff : Rego.allow policies tenant ns action = true ↔
    tenant = "test" ∨ Permits (rolesAt policies tenant ns) action ∨
    Permits (rolesAt policies tenant "*") action := by
  rw [Rego.allow, Bool.or_eq_true, Bool.or_eq_true, allowsIn_iff, allowsIn_iff,
    decide_eq_true_iff, or_assoc]

/-- The local check and the Rego policy agree on a request exactly if the policies mirror each
other on it. -/
theorem policies_agree_iff (g : Gateway) (tenant ns action : String)
    (hlocal : (g.opa.bind fun opa => opa tenant ns action) = none) :
    (g.checkPermission tenant ns action = .ok () ↔ Rego.allow g.policies tenant ns action = true) ↔
      Mirrored g.policies tenant ns action := by
  rw [checkPermission_ok_iff hlocal, allow_iff]
  by_cases hown : rolesAt g.policies tenant ns = []
  · have hnone : ¬ Permits (rolesAt g.policies tenant ns) action := by
      rw [hown]
      exact fun h => by simp [Permits] at h
    rw [roles_of_nil hown]
    constructor
    · intro h
      exact ⟨fun htest => .inr (h.mpr (.inl htest)), fun hne => absurd hown hne⟩
    · intro h
      refine ⟨fun hp => .inr (.inr hp), ?_⟩
      rintro (htest | hp | hp)
      · exact (h.test htest).resolve_left hnone
      · exact absurd hp hnone
      · exact hp
  · rw [roles_of_ne_nil hown]
    constructor
    · intro h
      exact ⟨fun htest => .inl (h.mpr (.inl htest)), fun _ hp => h.mpr (.inr (.inr hp))⟩
    · intro h
      refine ⟨fun hp => .inr (.inl hp), ?_⟩
      rintro (htest | hp | hp)
      · exact (h.test htest).elim id (h.wildcard hown)
      · exact hp
      · exact h.wildcard hown hp

private def gatewayOf (policies : Dict String (Dict String (List String))) : Gateway where
  env := "production"
  apiKeys := ∅
  jwtDecode _ := none
  policies := policies
  opa := none

theorem policies_agree_writer :
    (gatewayOf defaultPolicies).checkPermission "demo" "products" "upsert" = .ok () ↔
    Rego.allow defaultPolicies "demo" "products" "upsert" = true := by
  refine (policies_agree_iff (gatewayOf defaultPolicies) "demo" "products" "upsert" rfl).mpr
    ⟨?_, ?_⟩
  · decide +kernel
  · decide +kernel

/-- A writer of the namespace does not see its statistics, but every reader does. -/
theorem policies_differ : ∃ (g : Gateway) (tenant ns action : String), g.opa = none ∧
    g.checkPermission tenant ns action ≠ .ok () ∧
    Rego.allow g.policies tenant ns action = true := by
  refine ⟨gatewayOf (Dict.set ∅ "demo" ((Dict.set ∅ "products" ["writer"]).set "*" ["reader"])),
    "demo", "products", "stats", rfl, ?_, ?_⟩
  · rw [Ne, checkPermission_ok_iff rfl]
    decide +kernel
  · decide +kernel

theorem rolesAt_defaultPolicies (tenant ns : String) : rolesAt defaultPolicies tenant ns =
    if tenant = "test" then if ns = "*" then ["admin"] else []
    else if tenant = "demo" then if ns = "*" then ["reader"]
      else if ns = "products" then ["reader", "writer"] else []
    else [] := by
  unfold rolesAt defaultPolicies
  simp only [Dict.get?_set, Dict.get?_empty]
  split
  · simp only [Option.getD_some, Dict.get?_set, Dict.get?_empty]
    split <;> rfl
  · split
    · simp only [Option.getD_some, Dict.get?_set, Dict.get?_empty]
      split
      · rfl
      · split <;> rfl
    · rfl

theorem mirrored_defaultPolicies (tenant ns action : String) :
    Mirrored defaultPolicies tenant ns action := by
  have hsub : rolesAt defaultPolicies tenant ns ≠ [] →
      rolesAt defaultPolicies tenant "*" ⊆ rolesAt defaultPolicies tenant ns := by
    simp only [rolesAt_defaultPolicies, ↓reduceIte]
    split_ifs
    all_goals simp
  refine ⟨fun htest => .inr ⟨"admin", ?_, rfl⟩, fun hne hp => ?_⟩
  · rw [rolesAt_defaultPolicies, if_pos htest, if_pos rfl]
    exact List.mem_singleton_self _
  · obtain ⟨role, hrole, hp⟩ := hp
    exact ⟨role, hsub hne hrole, hp⟩

end Vsector.Api
