import CatalogSync.Diff.Channel
import CatalogSync.Edit.Channel
import CatalogSync.Proofs.Differences
import CatalogSync.Proofs.Replay

/- Channels. Equality of roles is a lawful relation, so a difference of role lists is the difference
   of the sets that they stand for, in the order of first occurrences (`RolesOnlyIn`). The actions
   come down to one record (`settledChannel`), which needs no assumption on either side. Main
   statement: `channelActions_exact`. -/
namespace CatalogSync.Diff

open CatalogSync.Edit

/-! ### Differences under equality -/

section Equality

variable {α : Type} [BEq α] [LawfulBEq α] {left right : List α} {a : α}

theorem mem_difference_beq : a ∈ difference (· == ·) left right ↔ a ∈ left ∧ a ∉ right := by
  constructor
  · intro h
    obtain ⟨hl, hr⟩ := mem_difference h
    exact ⟨hl, fun ha => List.any_eq_false.1 hr a ha BEq.rfl⟩
  · rintro ⟨hl, hr⟩
    have hnone : right.any (a == ·) = false :=
      List.any_eq_false.2 fun b hb hab => hr (eq_of_beq hab ▸ hb)
    obtain ⟨c, hc, hs⟩ := @exists_difference _ (· == ·) left right a hl hnone
    have heq : a = c := hs.elim id eq_of_beq
    exact heq ▸ hc

/-- What a difference has is in the order of the first occurrences. -/
theorem pairwise_idxOf_difference (left right : List α) :
    (difference (· == ·) left right).Pairwise fun a b => left.idxOf a < left.idxOf b := by
  induction left using List.reverseRecOn with
  | nil => exact List.Pairwise.nil
  | append_singleton left c ih =>
    have hkept : (difference (· == ·) left right).Pairwise fun a b =>
        (left ++ [c]).idxOf a < (left ++ [c]).idxOf b := by
      refine ih.imp_of_mem fun {a b} ha hb h => ?_
      rw [List.idxOf_append_of_mem (mem_difference ha).1,
        List.idxOf_append_of_mem (mem_difference hb).1]
      exact h
    rw [difference_append_singleton]
    split
    · rw [List.append_nil]
      exact hkept
    · next hfree =>
      rw [Bool.or_eq_true, not_or] at hfree
      -- what is taken at the end occurs nowhere before, or it would have been taken there
      have hnew : c ∉ left := by
        intro hc
        have hright : c ∉ right := fun h => hfree.1 (by simp [h])
        have htaken : c ∈ difference (· == ·) left right := mem_difference_beq.2 ⟨hc, hright⟩
        exact hfree.2 (by simp [htaken])
      refine List.pairwise_append.2 ⟨hkept, List.pairwise_singleton .., ?_⟩
      intro a ha b hb
      have hal := (mem_difference ha).1
      rw [List.mem_singleton.1 hb, List.idxOf_append_of_mem hal, List.idxOf_append_of_notMem hnew]
      exact Nat.lt_add_right _ (List.idxOf_lt_length_of_mem hal)

end Equality

/-! ### Roles -/

/-- The roles that only the left side has, in the order of their first occurrences there. -/
structure RolesOnlyIn (left right only : List ChannelRole) : Prop where
  mem_iff : ∀ r, r ∈ only ↔ r ∈ left ∧ r ∉ right
  ordered : only.Pairwise fun r s => left.idxOf r < left.idxOf s

theorem rolesOnlyIn_difference (left right : List ChannelRole) :
    RolesOnlyIn left right (difference (· == ·) left right) :=
  ⟨fun _ => mem_difference_beq, pairwise_idxOf_difference left right⟩

/-- None of the roles is there twice. -/
theorem RolesOnlyIn.nodup {left right only : List ChannelRole} (h : RolesOnlyIn left right only) :
    only.Nodup :=
  h.ordered.imp fun hlt heq => absurd (heq ▸ hlt) (Nat.lt_irrefl _)

/-- The roles that an action adds or removes. -/
def touchedRoles : ChannelAction → List ChannelRole
  | .addRoles roles => roles
  | .removeRoles roles => roles
  | .changeName _ => []
  | .changeDescription _ => []

/-- What the actions on roles make of the old ones. -/
def settledRoles (old new : List ChannelRole) : List ChannelRole :=
  (old.filter fun r => !(difference (· == ·) old new).contains r) ++ difference (· == ·) new old

theorem mem_settledRoles {old new : List ChannelRole} {r : ChannelRole} :
    r ∈ settledRoles old new ↔ r ∈ new := by
  have hkept : (!(difference (· == ·) old new).contains r) = true ↔ ¬(r ∈ old ∧ r ∉ new) := by
    rw [← mem_difference_beq, Bool.not_eq_true', Bool.eq_false_iff, ne_eq, List.contains_iff_mem]
  rw [settledRoles, List.mem_append, List.mem_filter, hkept, mem_difference_beq]
  by_cases ho : r ∈ old
  · by_cases hn : r ∈ new
    · simp [ho, hn]
    · simp [ho, hn]
  · simp [ho]

theorem replay_removeRoles (removed : List ChannelRole) (c : Channel) :
    replay channel (removed.map fun r => .removeRoles [r]) c =
      { c with roles := c.roles.filter fun r => !removed.contains r } := by
  induction removed generalizing c with
  | nil =>
    have hall : (c.roles.filter fun r => !([] : List ChannelRole).contains r) = c.roles :=
      List.filter_eq_self.2 fun _ _ => rfl
    rw [hall]
    rfl
  | cons s removed ih =>
    have hboth : ∀ r, (s :: removed).contains r = ([s].contains r || removed.contains r) :=
      fun r => by simp
    rw [List.map_cons, replay_cons, ih, channel]
    simp only [List.filter_filter, hboth, Bool.not_or, Bool.and_comm]

theorem replay_addRoles (added : List ChannelRole) (c : Channel) :
    replay channel (added.map fun r => .addRoles [r]) c = { c with roles := c.roles ++ added } := by
  induction added generalizing c with
  | nil =>
    rw [List.append_nil]
    rfl
  | cons r added ih =>
    rw [List.map_cons, replay_cons, ih, channel]
    simp only [List.append_assoc, List.singleton_append]

/-! ### All actions -/

variable {old : Channel} {new : ChannelDraft}

/-- What the actions make of a channel. -/
def settledChannel (old : Channel) (new : ChannelDraft) : Channel :=
  { old with
    name := new.name
    description := new.description
    roles := settledRoles old.roles new.roles }

theorem replay_channelActions (old : Channel) (new : ChannelDraft) :
    replay channel (channelActions old new) old = settledChannel old new := by
  unfold channelActions setActions
  simp only [replay_append]
  rw [replay_whenChanged (b := ChannelAction.changeName new.name) fun h => by rw [← h]; rfl,
    replay_whenChanged (b := ChannelAction.changeDescription new.description)
      fun h => by rw [← h]; rfl,
    replay_removeRoles, replay_addRoles]
  rfl

theorem whenChanged_eq_nil {α β : Type} [BEq α] [LawfulBEq α] {a a' : α} {b : β} :
    whenChanged a a' b = [] ↔ a = a' := by
  unfold whenChanged
  split
  · next h => exact iff_of_true rfl (eq_of_beq h)
  · next h => exact iff_of_false (List.cons_ne_nil b []) fun he => h (beq_iff_eq.2 he)

theorem difference_beq_eq_nil {left right : List ChannelRole} :
    difference (· == ·) left right = [] ↔ ∀ r ∈ left, r ∈ right := by
  simp only [List.eq_nil_iff_forall_not_mem, mem_difference_beq, not_and, not_not]

/-- Nothing is left to do if and only if the fields agree and the roles are the same set. -/
theorem channelActions_eq_nil : channelActions old new = [] ↔
    old.name = new.name ∧ old.description = new.description ∧
      ∀ r, r ∈ old.roles ↔ r ∈ new.roles := by
  simp only [channelActions, setActions, List.append_eq_nil_iff, List.map_eq_nil_iff,
    whenChanged_eq_nil, difference_beq_eq_nil, and_assoc, iff_def, forall_and]

theorem nodup_touchedRoles (old : Channel) (new : ChannelDraft) :
    ((channelActions old new).flatMap touchedRoles).Nodup := by
  have hremoved := rolesOnlyIn_difference old.roles new.roles
  have hadded := rolesOnlyIn_difference new.roles old.roles
  have hflat : (channelActions old new).flatMap touchedRoles =
      difference (· == ·) old.roles new.roles ++ difference (· == ·) new.roles old.roles := by
    have hname : (whenChanged old.name new.name (ChannelAction.changeName new.name)).flatMap
        touchedRoles = [] := by
      unfold whenChanged
      split <;> rfl
    have hdescription : (whenChanged old.description new.description
        (ChannelAction.changeDescription new.description)).flatMap touchedRoles = [] := by
      unfold whenChanged
      split <;> rfl
    simp only [channelActions, setActions, List.flatMap_append, hname, hdescription,
      List.flatMap_map, touchedRoles, List.nil_append, List.flatMap_singleton']
  rw [hflat, List.nodup_append]
  refine ⟨hremoved.nodup, hadded.nodup, fun r hr s hs heq => ?_⟩
  exact ((hremoved.mem_iff r).1 hr).2 (heq ▸ ((hadded.mem_iff s).1 hs).1)

/-- **The diff of a channel is exact.** The actions lead every channel to the name, the description
    and the set of roles of the draft, and change nothing else. They are the change of the name and
    that of the description where these differ, then one removal for each role that only the channel
    has, then one addition for each that only the draft has, both in the order of the first
    occurrences, and no role is in two of them. There are none if and only if the channel has what
    the draft wants already, and so there are none for the channel that they lead to. -/
theorem channelActions_exact (old : Channel) (new : ChannelDraft) :
    (∃ roles, (∀ r, r ∈ roles ↔ r ∈ new.roles) ∧
      replay channel (channelActions old new) old =
        { old with name := new.name, description := new.description, roles }) ∧
    channelActions (replay channel (channelActions old new) old) new = [] ∧
    (∃ removed added, RolesOnlyIn old.roles new.roles removed ∧
      RolesOnlyIn new.roles old.roles added ∧
      channelActions old new =
        (if old.name = new.name then [] else [.changeName new.name]) ++
          (if old.description = new.description then []
            else [.changeDescription new.description]) ++
          removed.map (fun r => .removeRoles [r]) ++ added.map (fun r => .addRoles [r])) ∧
    ((channelActions old new).flatMap touchedRoles).Nodup ∧
    (channelActions old new = [] ↔ old.name = new.name ∧ old.description = new.description ∧
      ∀ r, r ∈ old.roles ↔ r ∈ new.roles) := by
  refine ⟨?_, ?_, ?_, nodup_touchedRoles old new, channelActions_eq_nil⟩
  · exact ⟨settledRoles old.roles new.roles, fun _ => mem_settledRoles,
      replay_channelActions old new⟩
  · rw [replay_channelActions]
    exact channelActions_eq_nil.2 ⟨rfl, rfl, fun _ => mem_settledRoles⟩
  · refine ⟨_, _, rolesOnlyIn_difference .., rolesOnlyIn_difference .., ?_⟩
    simp only [channelActions, setActions, whenChanged, beq_iff_eq, List.append_assoc]

end CatalogSync.Diff
