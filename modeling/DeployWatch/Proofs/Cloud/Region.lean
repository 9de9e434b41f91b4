/-
# The region of a profile

A profile that names no region may be based on another one.  The lookup follows such a chain for a
number of steps that the length of the file bounds, and this bound takes nothing away: the region
is found just if a chain leads to it, however long that is (`ProfileFile.region?_eq_some_iff`).  A
chain that leads anywhere passes no section twice, for each section is that of one profile alone
(`ProfileFile.Leads.nodup`).
-/

import DeployWatch.Cloud.Profile
import Mathlib.Data.List.Nodup
import Mathlib.Data.List.Perm.Subperm

namespace DeployWatch

namespace ProfileFile

variable {file : ProfileFile} {s : ProfileSection} {name other region region' : String}
  {chain chain' : List ProfileSection} {steps : Nat}

/-- A chain of sections leads from a profile to a region: the last of them names the region, and
each of the others names the profile of the next one. -/
inductive Leads (file : ProfileFile) : List ProfileSection → String → String → Prop
  | here {name region : String} {s : ProfileSection} (found : file.profile? name = some s)
      (named : propertyOf? s "region" = some region) : Leads file [s] name region
  | based {name base region : String} {s : ProfileSection} {chain : List ProfileSection}
      (found : file.profile? name = some s) (silent : propertyOf? s "region" = none)
      (on : propertyOf? s "source_profile" = some base) (rest : Leads file chain base region) :
      Leads file (s :: chain) name region

/-! ### Sections and profiles -/

/-- How a profile has its section. -/
theorem profile?_eq_some (h : file.profile? name = some s) : s ∈ file.sections ∧
    (markedName? s.title = some name ∨ name = defaultProfile ∧
      trim s.title.toList = defaultProfile.toList) := by
  unfold profile? at h
  split at h
  · next found marked =>
    obtain rfl := Option.some.inj h
    have isMarked := List.find?_some marked
    simp only [ProfileFile.isMarked, Bool.and_eq_true, decide_eq_true_eq] at isMarked
    exact ⟨List.mem_of_find?_eq_some marked, .inl isMarked.1⟩
  · split at h
    · next default =>
      have titled : trim s.title.toList = defaultProfile.toList := by
        simpa using List.find?_some h
      exact ⟨List.mem_of_find?_eq_some h, .inr ⟨default, titled⟩⟩
    · cases h

/-- A title without a mark is the name of no other profile. -/
theorem markedName?_of_default {title : String} (h : trim title.toList = defaultProfile.toList) :
    markedName? title = none := by
  unfold markedName?
  rw [h]
  rfl

/-- A section is that of one profile alone. -/
theorem name_of_section (h : file.profile? name = some s) (h' : file.profile? other = some s) :
    name = other := by
  rcases (profile?_eq_some h).2 with marked | ⟨rfl, titled⟩
  · rcases (profile?_eq_some h').2 with marked' | ⟨-, titled⟩
    · exact Option.some.inj (marked.symm.trans marked')
    · rw [markedName?_of_default titled] at marked
      cases marked
  · rcases (profile?_eq_some h').2 with marked' | ⟨rfl, -⟩
    · rw [markedName?_of_default titled] at marked'
      cases marked'
    · rfl

/-! ### Chains -/

/-- From a profile there is at most one chain. -/
theorem Leads.unique (leads : file.Leads chain name region)
    (leads' : file.Leads chain' name region') : chain = chain' ∧ region = region' := by
  induction leads generalizing chain' with
  | here found named =>
    cases leads' with
    | here found' named' =>
      obtain rfl := Option.some.inj (found.symm.trans found')
      exact ⟨rfl, Option.some.inj (named.symm.trans named')⟩
    | based found' silent =>
      obtain rfl := Option.some.inj (found.symm.trans found')
      rw [named] at silent
      cases silent
  | based found silent on rest ih =>
    cases leads' with
    | here found' named' =>
      obtain rfl := Option.some.inj (found.symm.trans found')
      rw [silent] at named'
      cases named'
    | based found' silent' on' rest' =>
      obtain rfl := Option.some.inj (found.symm.trans found')
      obtain rfl := Option.some.inj (on.symm.trans on')
      obtain ⟨rfl, rfl⟩ := ih rest'
      exact ⟨rfl, rfl⟩

theorem Leads.subset (leads : file.Leads chain name region) : chain ⊆ file.sections := by
  induction leads with
  | here found => simpa using (profile?_eq_some found).1
  | based found _ _ _ ih => exact List.cons_subset.mpr ⟨(profile?_eq_some found).1, ih⟩

/-- From every section of a chain the rest of the chain leads on. -/
theorem Leads.exists_of_mem (leads : file.Leads chain name region) (h : s ∈ chain) :
    ∃ other rest, file.profile? other = some s ∧ file.Leads rest other region ∧
      rest.length ≤ chain.length := by
  induction leads with
  | here found named =>
    obtain rfl := List.mem_singleton.mp h
    exact ⟨_, _, found, .here found named, Nat.le_refl _⟩
  | based found silent on rest ih =>
    rcases List.mem_cons.mp h with rfl | later
    · exact ⟨_, _, found, .based found silent on rest, Nat.le_refl _⟩
    · obtain ⟨other, rest, found', leads', le⟩ := ih later
      exact ⟨other, rest, found', leads', Nat.le_succ_of_le le⟩

/-- A chain that leads anywhere passes no section twice. -/
theorem Leads.nodup (leads : file.Leads chain name region) : chain.Nodup := by
  induction leads with
  | here => exact List.nodup_singleton _
  | @based name base region s chain found silent on rest ih =>
    refine List.nodup_cons.mpr ⟨?_, ih⟩
    intro again
    obtain ⟨other, tail, found', leads', le⟩ := rest.exists_of_mem again
    -- it is the same profile, so the chain from it would be shorter than itself
    obtain rfl := name_of_section found found'
    have same := (Leads.based found silent on rest).unique leads'
    rw [← same.1] at le
    exact absurd le (Nat.not_succ_le_self _)

/-! ### The lookup -/

theorem exists_leads_of_regionWithin? (h : file.regionWithin? steps name = some region) :
    ∃ chain, file.Leads chain name region := by
  induction steps generalizing name with
  | zero => cases h
  | succ steps ih =>
    unfold regionWithin? at h
    obtain ⟨s, found, h⟩ := Option.bind_eq_some_iff.mp h
    split at h
    · next named =>
      obtain rfl := Option.some.inj h
      exact ⟨[s], .here found named⟩
    · next silent =>
      obtain ⟨base, on, h⟩ := Option.bind_eq_some_iff.mp h
      obtain ⟨chain, rest⟩ := ih h
      exact ⟨s :: chain, .based found silent on rest⟩

theorem Leads.regionWithin? (leads : file.Leads chain name region) (le : chain.length ≤ steps) :
    file.regionWithin? steps name = some region := by
  induction leads generalizing steps with
  | here found named =>
    cases steps with
    | zero => cases le
    | succ steps => simp [ProfileFile.regionWithin?, found, named]
  | based found silent on rest ih =>
    cases steps with
    | zero => cases le
    | succ steps =>
      simp [ProfileFile.regionWithin?, found, silent, on, ih (Nat.le_of_succ_le_succ le)]

/-- **A region is found just if a chain of profiles leads to it.** -/
theorem region?_eq_some_iff :
    file.region? name = some region ↔ ∃ chain, file.Leads chain name region := by
  constructor
  · exact exists_leads_of_regionWithin?
  · rintro ⟨chain, leads⟩
    exact leads.regionWithin? (List.subperm_of_subset leads.nodup leads.subset).length_le

end ProfileFile

/-- **Where requests are sent.**  A region in the environment counts, and only without one the
profile: the one asked for, else the one in the environment, else the default one. -/
theorem regionOf_eq_some_iff {file : ProfileFile} {env : List (String × String)}
    {profile : Option String} {region : String} :
    regionOf file env profile = some region ↔
      (env.lookup "AWS_REGION").or (env.lookup "AWS_DEFAULT_REGION") = some region ∨
      env.lookup "AWS_REGION" = none ∧ env.lookup "AWS_DEFAULT_REGION" = none ∧
        ∃ chain, file.Leads chain
          ((profile.or (env.lookup "AWS_PROFILE")).getD ProfileFile.defaultProfile) region := by
  unfold regionOf
  cases env.lookup "AWS_REGION" <;> cases env.lookup "AWS_DEFAULT_REGION" <;>
    simp [ProfileFile.region?_eq_some_iff]

end DeployWatch
