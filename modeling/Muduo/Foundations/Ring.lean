import Mathlib.Tactic

/-!
# Rings of doubly linked nodes

A ring starts and ends at its head. Going forth from there through `next` visits its nodes
one after the other, and going back through `prev` visits them in the opposite order. A node
that is taken out of a ring keeps its own two pointers, and can be put back through them as
long as its neighbours are those it had.
-/

namespace Foundations

variable {α : Type*}

/-- Going from `a` through `next` visits `xs`, and then `b`. -/
def Visits (next : α → α) : α → List α → α → Prop
  | a, [], b => next a = b
  | a, x :: xs, b => next a = x ∧ Visits next x xs b

section Visits

variable {next next' : α → α} {a b c x : α} {xs ys : List α}

theorem visits_append :
    Visits next a (xs ++ x :: ys) b ↔ Visits next a xs x ∧ Visits next x ys b := by
  induction xs generalizing a with
  | nil => rfl
  | cons y xs ih => simp only [List.cons_append, Visits, ih, and_assoc]

theorem Visits.congr (h : Visits next a xs b) (hnext : ∀ y ∈ a :: xs, next' y = next y) :
    Visits next' a xs b := by
  induction xs generalizing a with
  | nil => exact (hnext a (by simp)).trans h
  | cons y xs ih =>
    exact ⟨(hnext a (by simp)).trans h.1, ih h.2 fun z hz => hnext z (List.mem_cons_of_mem _ hz)⟩

theorem Visits.exists_last (h : Visits next a xs b) :
    ∃ p ∈ a :: xs, next p = b ∧ ((a :: xs).Nodup → ∀ [DecidableEq α] (c : α),
      Visits (Function.update next p c) a xs c) := by
  induction xs generalizing a with
  | nil => exact ⟨a, by simp, h, fun _ _ c => by simp [Visits]⟩
  | cons y xs ih =>
    obtain ⟨p, hp, hlast, hturn⟩ := ih h.2
    refine ⟨p, List.mem_cons_of_mem _ hp, hlast, fun hnodup _ c => ?_⟩
    rw [List.nodup_cons] at hnodup
    have hne : a ≠ p := fun heq => hnodup.1 (heq ▸ hp)
    exact ⟨(Function.update_of_ne hne _ _).trans h.1, hturn hnodup.2 c⟩

theorem Visits.next_mem (h : Visits next a xs b) (hx : x ∈ a :: xs) : next x ∈ xs ++ [b] := by
  induction xs generalizing a with
  | nil =>
    obtain rfl : x = a := by simpa using hx
    rw [show next x = b from h]
    simp
  | cons y xs ih =>
    rcases List.mem_cons.mp hx with rfl | hx
    · simp [h.1]
    · exact List.mem_cons_of_mem _ (ih h.2 hx)

end Visits

/-- The pointers of all nodes. -/
structure Links (α : Type*) where
  next : α → α
  prev : α → α

namespace Links

variable [DecidableEq α] (l : Links α)

/-- `j->next->prev = j->prev; j->prev->next = j->next`. -/
def unlink (j : α) : Links α :=
  let prev := Function.update l.prev (l.next j) (l.prev j)
  ⟨Function.update l.next (prev j) (l.next j), prev⟩

/-- `j->next->prev = j; j->prev->next = j`. -/
def relink (j : α) : Links α :=
  let prev := Function.update l.prev (l.next j) j
  ⟨Function.update l.next (prev j) j, prev⟩

/-- `n->prev = h->prev; n->next = h; h->prev->next = n; h->prev = n`. -/
def insertBefore (h n : α) : Links α :=
  let prev := Function.update l.prev n (l.prev h)
  let next := Function.update l.next n h
  ⟨Function.update next (prev h) n, Function.update prev h n⟩

def alone (n : α) : Links α := ⟨Function.update l.next n n, Function.update l.prev n n⟩

end Links

/-- A ring with its head and the nodes behind it. -/
structure Ring (l : Links α) (h : α) (xs : List α) : Prop where
  nodup : (h :: xs).Nodup
  forth : Visits l.next h xs h
  back : ∀ a ∈ h :: xs, l.prev (l.next a) = a

namespace Ring

variable {l l' : Links α} {h j n : α} {xs ys zs : List α}

theorem next_mem (hr : Ring l h xs) {a : α} (ha : a ∈ h :: xs) : l.next a ∈ h :: xs := by
  have := hr.forth.next_mem ha
  simp only [List.mem_append, List.mem_singleton] at this
  exact List.mem_cons.mpr this.symm

theorem next_inj (hr : Ring l h xs) {a b : α} (ha : a ∈ h :: xs) (hb : b ∈ h :: xs)
    (hab : l.next a = l.next b) : a = b := by
  rw [← hr.back a ha, hab, hr.back b hb]

theorem congr (hr : Ring l h xs) (hnext : ∀ a ∈ h :: xs, l'.next a = l.next a)
    (hprev : ∀ a ∈ h :: xs, l'.prev a = l.prev a) : Ring l' h xs where
  nodup := hr.nodup
  forth := hr.forth.congr hnext
  back a ha := by rw [hnext a ha, hprev _ (hr.next_mem ha), hr.back a ha]

theorem rotate (hr : Ring l h (xs ++ j :: ys)) : Ring l j (ys ++ h :: xs) := by
  have hperm : (j :: (ys ++ h :: xs)).Perm (h :: (xs ++ j :: ys)) := by
    have : ((j :: ys) ++ (h :: xs)).Perm ((h :: xs) ++ (j :: ys)) := List.perm_append_comm
    simpa using this
  obtain ⟨hbefore, hbehind⟩ := visits_append.mp hr.forth
  exact ⟨hperm.nodup_iff.mpr hr.nodup, visits_append.mpr ⟨hbehind, hbefore⟩,
    fun a ha => hr.back a (hperm.mem_iff.mp ha)⟩

theorem exists_prev (hr : Ring l h xs) : l.prev h ∈ h :: xs ∧ l.next (l.prev h) = h := by
  obtain ⟨p, hp, hlast, -⟩ := hr.forth.exists_last
  have hprev : l.prev h = p := by rw [← hlast, hr.back p hp]
  exact ⟨hprev ▸ hp, hprev ▸ hlast⟩

theorem prev_spec (hr : Ring l h xs) {a : α} (ha : a ∈ h :: xs) :
    l.prev a ∈ h :: xs ∧ l.next (l.prev a) = a := by
  rcases List.mem_cons.mp ha with rfl | ha
  · exact hr.exists_prev
  · obtain ⟨ys, zs, rfl⟩ := List.append_of_mem ha
    obtain ⟨hmem, hnext⟩ := hr.rotate.exists_prev
    refine ⟨?_, hnext⟩
    simp only [List.mem_cons, List.mem_append] at hmem ⊢
    tauto

theorem visits_prev (hr : Ring l h xs) : Visits l.prev h xs.reverse h := by
  have hback : ∀ (xs : List α) (a b : α), Visits l.next a xs b →
      (∀ x ∈ a :: xs, l.prev (l.next x) = x) → Visits l.prev b xs.reverse a := by
    intro xs
    induction xs with
    | nil =>
      intro a b hab hprev
      have := hprev a (by simp)
      rwa [show l.next a = b from hab] at this
    | cons x xs ih =>
      intro a b hab hprev
      have htail := ih x b hab.2 fun y hy => hprev y (List.mem_cons_of_mem _ hy)
      have hhead := hprev a (by simp)
      rw [hab.1] at hhead
      rw [List.reverse_cons]
      exact visits_append.mpr ⟨htail, hhead⟩
  exact hback xs h h hr.forth hr.back

theorem next_ne_self (hr : Ring l h xs) (hj : j ∈ xs) : l.next j ≠ j := by
  obtain ⟨ys, zs, rfl⟩ := List.append_of_mem hj
  intro heq
  have hbehind := (visits_append.mp hr.forth).2.next_mem (x := j) (by simp)
  rw [heq, List.mem_append, List.mem_singleton] at hbehind
  have hnodup := hr.nodup
  simp only [List.nodup_cons, List.nodup_middle, List.mem_append, List.mem_cons] at hnodup
  obtain hz | rfl := hbehind
  · exact hnodup.2.1 (.inr hz)
  · exact hnodup.1 (.inr (.inl rfl))

variable [DecidableEq α]

theorem unlink_of_append (hr : Ring l h (ys ++ j :: zs)) : Ring (l.unlink j) h (ys ++ zs) := by
  obtain ⟨hbefore, hbehind⟩ := visits_append.mp hr.forth
  have hnodup := hr.nodup
  have hsub : (h :: (ys ++ zs)).Sublist (h :: (ys ++ j :: zs)) :=
    ((List.sublist_cons_self j zs).append_left ys).cons_cons h
  have hj : j ∉ h :: (ys ++ zs) := by
    have hmid : (h :: ys ++ j :: zs).Nodup := hnodup
    rw [List.nodup_middle] at hmid
    exact (List.nodup_cons.mp hmid).1
  obtain ⟨p, hp, hlast, hturn⟩ := hbefore.exists_last
  have hpmem : p ∈ h :: (ys ++ j :: zs) := by
    simp only [List.mem_cons, List.mem_append] at hp ⊢
    tauto
  have hprev : l.prev j = p := by rw [← hlast, hr.back p hpmem]
  have hjmem : j ∈ h :: (ys ++ j :: zs) := by simp
  have hself : l.next j ≠ j := hr.next_ne_self (by simp)
  have hlinks : l.unlink j = ⟨Function.update l.next p (l.next j),
      Function.update l.prev (l.next j) p⟩ := by
    simp [Links.unlink, hprev, Function.update_of_ne hself.symm]
  rw [hlinks]
  refine ⟨hnodup.sublist hsub, ?_, fun a ha => ?_⟩
  · have hnodup' : (h :: ys).Nodup := hnodup.sublist
      ((List.sublist_append_left ys (j :: zs)).cons_cons h)
    cases zs with
    | nil =>
      rw [List.append_nil, show l.next j = h from hbehind]
      exact hturn hnodup' h
    | cons z zs =>
      rw [hbehind.1]
      refine visits_append.mpr ⟨hturn hnodup' z, hbehind.2.congr fun y hy => ?_⟩
      have hdisjoint : (h :: ys).Disjoint (z :: zs) := by
        have : ((h :: ys) ++ (z :: zs)).Nodup := hnodup.sublist hsub
        exact (List.nodup_append'.mp this).2.2
      have hyp : y ≠ p := fun heq => hdisjoint hp (heq ▸ hy)
      exact Function.update_of_ne hyp _ _
  · by_cases hap : a = p
    · simp [hap]
    · have hne : l.next a ≠ l.next j := fun heq =>
        hj ((hr.next_inj (hsub.mem ha) hjmem heq) ▸ ha)
      simp only [Function.update_of_ne hap, Function.update_of_ne hne]
      exact hr.back a (hsub.mem ha)

theorem unlink (hr : Ring l h xs) (hj : j ∈ xs) : Ring (l.unlink j) h (xs.erase j) := by
  obtain ⟨ys, zs, rfl⟩ := List.append_of_mem hj
  have hnot : j ∉ ys := by
    have hmid : (ys ++ j :: zs).Nodup := (List.nodup_cons.mp hr.nodup).2
    rw [List.nodup_middle, List.nodup_cons, List.mem_append] at hmid
    exact fun hmem => hmid.1 (.inl hmem)
  rw [List.erase_append_right _ hnot, List.erase_cons_head]
  exact hr.unlink_of_append

omit [DecidableEq α] in
theorem prev_head_iff (hr : Ring l h xs) : l.prev h = h ↔ xs = [] := by
  constructor
  · intro hprev
    obtain ⟨-, hnext⟩ := hr.prev_spec (List.mem_cons_self (a := h) (l := xs))
    rw [hprev] at hnext
    cases xs with
    | nil => rfl
    | cons x xs =>
      have hx : l.next h = x := hr.forth.1
      exact absurd (hnext ▸ hx ▸ List.mem_cons_self) (List.nodup_cons.mp hr.nodup).1
  · rintro rfl
    have hback := hr.back h List.mem_cons_self
    rwa [show l.next h = h from hr.forth] at hback

/-- A ring that has no node in common with the one that loses a node. -/
theorem unlink_apart {h' : α} (hr : Ring l h xs) (hj : j ∈ xs) (hr' : Ring l h' ys)
    (hapart : ∀ a ∈ h' :: ys, a ∉ h :: xs) : Ring (l.unlink j) h' ys := by
  have hjmem := List.mem_cons_of_mem h hj
  refine hr'.congr (fun a ha => ?_) fun a ha => ?_
  · have hne : a ≠ l.prev j := fun heq => hapart a ha (heq ▸ (hr.prev_spec hjmem).1)
    simp [Links.unlink, Function.update_of_ne (hr.next_ne_self hj).symm,
      Function.update_of_ne hne]
  · have hne : a ≠ l.next j := fun heq => hapart a ha (heq ▸ hr.next_mem hjmem)
    simp [Links.unlink, Function.update_of_ne hne]

theorem insertBefore (hr : Ring l h xs) (hn : n ∉ h :: xs) :
    Ring (l.insertBefore h n) h (xs ++ [n]) := by
  obtain ⟨p, hp, hlast, hturn⟩ := hr.forth.exists_last
  have hprev : l.prev h = p := by rw [← hlast, hr.back p hp]
  have hnh : h ≠ n := fun heq => hn (heq ▸ List.mem_cons_self)
  have hnp : p ≠ n := fun heq => hn (heq ▸ hp)
  have hlinks : l.insertBefore h n =
      ⟨Function.update (Function.update l.next p n) n h,
        Function.update (Function.update l.prev n p) h n⟩ := by
    simp [Links.insertBefore, hprev, Function.update_of_ne hnh, Function.update_comm hnp]
  have hnodup : (h :: xs ++ [n]).Nodup := by
    rw [List.nodup_append']
    refine ⟨hr.nodup, List.nodup_singleton n, fun a ha hna => ?_⟩
    exact hn (List.mem_singleton.mp hna ▸ ha)
  rw [hlinks]
  refine ⟨hnodup, visits_append.mpr ⟨?_, by simp [Visits]⟩, fun a ha => ?_⟩
  · refine (hturn hr.nodup n).congr fun y hy => ?_
    have hyn : y ≠ n := fun heq => hn (heq ▸ hy)
    exact Function.update_of_ne hyn _ _
  · by_cases han : a = n
    · simp [han]
    · have hmem : a ∈ h :: xs := by simpa [han] using ha
      by_cases hap : a = p
      · simp [hap, Function.update_of_ne hnp, Function.update_of_ne hnh.symm]
      · have hnext := hr.next_mem hmem
        have hne : l.next a ≠ n := fun heq => hn (heq ▸ hnext)
        have hneh : l.next a ≠ h := by
          intro heq
          exact hap (hr.next_inj hmem hp (heq.trans hlast.symm))
        simp only [Function.update_of_ne han, Function.update_of_ne hap,
          Function.update_of_ne hneh, Function.update_of_ne hne]
        exact hr.back a hmem

theorem alone (l : Links α) (n : α) : Ring (l.alone n) n [] where
  nodup := by simp
  forth := by simp [Links.alone, Visits]
  back a ha := by
    obtain rfl : a = n := by simpa using ha
    simp [Links.alone]

theorem alone_apart (hr : Ring l h xs) (hn : n ∉ h :: xs) : Ring (l.alone n) h xs := by
  refine hr.congr (fun a ha => ?_) fun a ha => ?_
  all_goals
    have hne : a ≠ n := fun heq => hn (heq ▸ ha)
    exact Function.update_of_ne hne _ _

theorem insertBefore_apart {h' : α} (hr : Ring l h xs) (hn : n ≠ h) (hr' : Ring l h' ys)
    (hn' : n ∉ h' :: ys) (hapart : ∀ a ∈ h' :: ys, a ∉ h :: xs) :
    Ring (l.insertBefore h n) h' ys := by
  refine hr'.congr (fun a ha => ?_) fun a ha => ?_
  all_goals have hne : a ≠ n := fun heq => hn' (heq ▸ ha)
  · have hprev : a ≠ l.prev h := fun heq => hapart a ha (heq ▸ hr.exists_prev.1)
    simp [Links.insertBefore, Function.update_of_ne hne, Function.update_of_ne hn.symm,
      Function.update_of_ne hprev]
  · have hhead : a ≠ h := fun heq => hapart a ha (heq ▸ List.mem_cons_self)
    simp [Links.insertBefore, Function.update_of_ne hne, Function.update_of_ne hhead]

end Ring

namespace Links

variable [DecidableEq α] {l : Links α} {j : α}

theorem relink_unlink (hnext : l.prev (l.next j) = j) (hprev : l.next (l.prev j) = j)
    (hself : l.next j ≠ j) : (l.unlink j).relink j = l := by
  have hself' : l.prev j ≠ j := fun heq => hself ((congrArg l.next heq.symm).trans hprev)
  have hunlink : l.unlink j = ⟨Function.update l.next (l.prev j) (l.next j),
      Function.update l.prev (l.next j) (l.prev j)⟩ := by
    simp [unlink, Function.update_of_ne hself.symm]
  rw [hunlink, relink]
  simp only [Function.update_of_ne hself'.symm, Function.update_of_ne hself.symm,
    Function.update_idem]
  have hback : Function.update l.prev (l.next j) j = l.prev :=
    Function.update_eq_iff.mpr ⟨hnext.symm, fun _ _ => rfl⟩
  have hforth : Function.update l.next (l.prev j) j = l.next :=
    Function.update_eq_iff.mpr ⟨hprev.symm, fun _ _ => rfl⟩
  rw [hback, hforth]

theorem relink_unlink_of_ring {h : α} {xs : List α} (hr : Ring l h xs) (hj : j ∈ xs) :
    (l.unlink j).relink j = l := by
  have hmem : j ∈ h :: xs := List.mem_cons_of_mem _ hj
  exact relink_unlink (hr.back j hmem) (hr.prev_spec hmem).2 (hr.next_ne_self hj)

end Links

/-- Several rings that have no node in common. -/
structure Rings (l : Links α) (heads : List α) (nodes : α → List α) : Prop where
  ring : ∀ h ∈ heads, Ring l h (nodes h)
  apart : ∀ h ∈ heads, ∀ h' ∈ heads, h ≠ h' → (h :: nodes h).Disjoint (h' :: nodes h')

namespace Rings

variable {l : Links α} {heads : List α} {nodes : α → List α} {h j : α}

theorem restrict {heads' : List α} {nodes' : α → List α} (hr : Rings l heads nodes)
    (hsub : heads' ⊆ heads) (hnodes : ∀ h ∈ heads', nodes h = nodes' h) :
    Rings l heads' nodes' where
  ring h hh := hnodes h hh ▸ hr.ring h (hsub hh)
  apart h hh h' hh' hne := by
    rw [← hnodes h hh, ← hnodes h' hh']
    exact hr.apart h (hsub hh) h' (hsub hh') hne

variable [DecidableEq α]

theorem unlink (hr : Rings l heads nodes) (hh : h ∈ heads) (hj : j ∈ nodes h) :
    Rings (l.unlink j) heads fun h => (nodes h).filter (· ≠ j) := by
  refine ⟨fun h' hh' => ?_, fun h₁ hh₁ h₂ hh₂ hne => ?_⟩
  · by_cases heq : h' = h
    · subst heq
      have hnodup := (List.nodup_cons.mp (hr.ring h' hh).nodup).2
      have hfilter : (nodes h').erase j = (nodes h').filter (· ≠ j) := by
        rw [hnodup.erase_eq_filter]
        congr 1
        funext a
        simp [bne, BEq.beq]
      exact hfilter ▸ (hr.ring h' hh).unlink hj
    · have hother : ∀ a ∈ h' :: nodes h', a ∉ h :: nodes h := fun a ha ha' =>
        hr.apart h' hh' h hh heq ha ha'
      have hnot : j ∉ nodes h' := fun hj' =>
        hother j (List.mem_cons_of_mem _ hj') (List.mem_cons_of_mem _ hj)
      have hall : (nodes h').filter (· ≠ j) = nodes h' := by
        rw [List.filter_eq_self]
        intro a ha
        have hne : a ≠ j := fun heq => hnot (heq ▸ ha)
        simpa using hne
      rw [hall]
      exact (hr.ring h hh).unlink_apart hj (hr.ring h' hh') hother
  · exact fun a ha ha' => hr.apart h₁ hh₁ h₂ hh₂ hne
      (List.cons_subset_cons _ (List.filter_subset_self _) ha)
      (List.cons_subset_cons _ (List.filter_subset_self _) ha')

theorem unlinkAll {js : List α} (hr : Rings l heads nodes) (hnodup : js.Nodup)
    (hjs : ∀ j ∈ js, ∃ h ∈ heads, j ∈ nodes h) :
    Rings (js.foldl Links.unlink l) heads fun h => (nodes h).filter (· ∉ js) := by
  induction js generalizing l nodes with
  | nil => simpa using hr
  | cons j js ih =>
    rw [List.nodup_cons] at hnodup
    obtain ⟨h, hh, hj⟩ := hjs j (by simp)
    have hrest := ih (hr.unlink hh hj) hnodup.2 fun k hk => by
      obtain ⟨h', hh', hk'⟩ := hjs k (List.mem_cons_of_mem _ hk)
      have hne : k ≠ j := fun heq => hnodup.1 (heq ▸ hk)
      exact ⟨h', hh', List.mem_filter.mpr ⟨hk', by simpa using hne⟩⟩
    have hfilter : ∀ h, (nodes h).filter (· ∉ j :: js) =
        ((nodes h).filter (· ≠ j)).filter (· ∉ js) := by
      intro h
      rw [List.filter_filter]
      congr 1
      funext a
      simp [not_or, Bool.and_comm]
    simp only [List.foldl_cons, hfilter]
    exact hrest

variable {n : α}

theorem addHead {nodes' : α → List α} (hr : Rings l heads nodes)
    (hn : ∀ h ∈ heads, n ∉ h :: nodes h) (hnew : nodes' n = [])
    (hold : ∀ h ∈ heads, nodes' h = nodes h) : Rings (l.alone n) (heads ++ [n]) nodes' := by
  have hcases : ∀ {h}, h ∈ heads ++ [n] → h ∈ heads ∧ nodes' h = nodes h ∨ h = n := by
    intro h hh
    rcases List.mem_append.mp hh with hh | hh
    · exact .inl ⟨hh, hold h hh⟩
    · exact .inr (List.mem_singleton.mp hh)
  have hlone : ∀ h ∈ heads, (h :: nodes h).Disjoint [n] := fun h hh a ha hna =>
    hn h hh (List.mem_singleton.mp hna ▸ ha)
  refine ⟨fun h hh => ?_, fun h hh h' hh' hne => ?_⟩
  · rcases hcases hh with ⟨hh, heq⟩ | rfl
    · exact heq ▸ (hr.ring h hh).alone_apart (hn h hh)
    · exact hnew ▸ Ring.alone l h
  · rcases hcases hh with ⟨hmem, heq⟩ | rfl <;> rcases hcases hh' with ⟨hmem', heq'⟩ | rfl
    · rw [heq, heq']
      exact hr.apart h hmem h' hmem' hne
    · rw [heq, hnew]
      exact hlone h hmem
    · rw [heq', hnew]
      exact (hlone h' hmem').symm
    · exact absurd rfl hne

theorem addNode {nodes' : α → List α} (hr : Rings l heads nodes) (hh : h ∈ heads)
    (hn : ∀ h ∈ heads, n ∉ h :: nodes h) (hnew : nodes' h = nodes h ++ [n])
    (hold : ∀ h' ∈ heads, h' ≠ h → nodes' h' = nodes h') :
    Rings ((l.alone n).insertBefore h n) heads nodes' := by
  have hring := (hr.ring h hh).alone_apart (hn h hh)
  have hnh : n ≠ h := fun heq => hn h hh (heq ▸ List.mem_cons_self)
  have hapart : ∀ h' ∈ heads, h' ≠ h → (h :: nodes' h).Disjoint (h' :: nodes' h') := by
    intro h' hh' hne a ha ha'
    rw [hold h' hh' hne] at ha'
    rw [hnew, ← List.cons_append, List.mem_append, List.mem_singleton] at ha
    rcases ha with ha | rfl
    · exact hr.apart h hh h' hh' hne.symm ha ha'
    · exact hn h' hh' ha'
  refine ⟨fun h' hh' => ?_, fun h₁ hh₁ h₂ hh₂ hne => ?_⟩
  · by_cases heq : h' = h
    · subst heq
      exact hnew ▸ hring.insertBefore (hn h' hh)
    · rw [hold h' hh' heq]
      refine hring.insertBefore_apart hnh ((hr.ring h' hh').alone_apart (hn h' hh')) (hn h' hh') ?_
      exact fun a ha ha' => hr.apart h' hh' h hh heq ha ha'
  · by_cases heq₁ : h₁ = h
    · subst heq₁
      exact hapart h₂ hh₂ hne.symm
    · by_cases heq₂ : h₂ = h
      · subst heq₂
        exact (hapart h₁ hh₁ heq₁).symm
      · rw [hold h₁ hh₁ heq₁, hold h₂ hh₂ heq₂]
        exact hr.apart h₁ hh₁ h₂ hh₂ hne

end Rings
end Foundations
