import Mathlib.Data.List.Induction
import Rko.RankedList
import Rko.UringSystem

namespace Rko

open RankedList

/-- The table is ordered by the length of the prefixes. -/
def urlLength (r : Bytes × UInt32) : Nat := r.1.length

section Sorting

variable {routes : Routes}

theorem sift_of_le {j : Nat} {a b : Bytes × UInt32} (ha : routes[j]? = some a)
    (hb : routes[j + 1]? = some b) (hle : urlLength b ≤ urlLength a) :
    sift routes (j + 1) = routes := by
  simp only [sift, ha, hb]
  exact if_neg (Nat.not_lt.mpr hle)

theorem sift_swap (front rest : Routes) {a b : Bytes × UInt32} (hlt : urlLength a < urlLength b) :
    sift (front ++ a :: b :: rest) (front.length + 1) =
      sift (front ++ b :: a :: rest) front.length := by
  have ha : (front ++ a :: b :: rest)[front.length]? = some a := by simp
  have hb : (front ++ a :: b :: rest)[front.length + 1]? = some b := by
    rw [List.getElem?_append_right (by omega), Nat.add_sub_cancel_left]
    rfl
  have hswap : ((front ++ a :: b :: rest).set front.length b).set (front.length + 1) a =
      front ++ b :: a :: rest := by
    rw [List.set_append_right (h := le_rfl), List.set_append_right (h := by omega),
      Nat.sub_self, Nat.add_sub_cancel_left]
    rfl
  simp only [sift, ha, hb, hswap]
  exact if_pos hlt

/-- An entry behind strictly shorter ones moves in front of all of them. -/
theorem sift_moves (front back rest : Routes) (x : Bytes × UInt32)
    (hfront : ∀ a ∈ front, urlLength x ≤ urlLength a) (hback : ∀ a ∈ back, urlLength a < urlLength x) :
    sift (front ++ back ++ x :: rest) (front ++ back).length = front ++ x :: back ++ rest := by
  induction back using List.reverseRecOn generalizing rest with
  | nil =>
    cases front using List.reverseRecOn with
    | nil => rfl
    | append_singleton front a =>
      have ha : (front ++ [a] ++ [] ++ x :: rest)[front.length]? = some a := by simp
      have hx : (front ++ [a] ++ [] ++ x :: rest)[front.length + 1]? = some x := by simp
      have hle := hfront a (List.mem_append_right _ (List.mem_singleton_self a))
      simpa using sift_of_le ha hx hle
  | append_singleton back a ih =>
    have hlt := hback a (List.mem_append_right _ (List.mem_singleton_self a))
    have hmoved := ih (a :: rest) fun b hb => hback b (List.mem_append_left _ hb)
    have hswap := sift_swap (front ++ back) rest hlt
    rw [hmoved] at hswap
    simpa [Nat.add_assoc] using hswap

theorem foldl_sift_ranked (hranked : Ranked urlLength routes) (rest : Routes) (n : Nat)
    (hn : n + 1 ≤ routes.length) :
    (List.range' 1 n).foldl sift (routes ++ rest) = routes ++ rest := by
  induction n with
  | zero => rfl
  | succ n ih =>
    rw [List.range'_concat, List.foldl_append, ih (by omega)]
    have hle := List.pairwise_iff_getElem.mp hranked n (n + 1) (by omega) (by omega) (by omega)
    have hstep : sift (routes ++ rest) (n + 1) = routes ++ rest := by
      refine sift_of_le (List.getElem?_eq_some_iff.mpr ⟨?_, ?_⟩)
        (List.getElem?_eq_some_iff.mpr ⟨?_, ?_⟩) hle
      · rw [List.length_append]
        omega
      · rw [List.getElem_append_left]
      · rw [List.length_append]
        omega
      · rw [List.getElem_append_left]
    simpa [Nat.add_comm 1 n] using hstep

/-- The insertion sort after a push puts the new entry in its place. -/
theorem sortRoutes_push (hranked : Ranked urlLength routes) (x : Bytes × UInt32) :
    sortRoutes (routes ++ [x]) = place urlLength x routes := by
  obtain ⟨front, back, rfl, hplace, hfront, hback⟩ := hranked.split x
  have hlen : (front ++ back ++ [x]).length - 1 = (front ++ back).length := by simp
  rw [hplace, sortRoutes, hlen]
  cases hcount : (front ++ back).length with
  | zero =>
    obtain ⟨rfl, rfl⟩ := List.append_eq_nil_iff.mp (List.length_eq_zero_iff.mp hcount)
    rfl
  | succ n =>
    rw [List.range'_concat, List.foldl_append, foldl_sift_ranked hranked [x] n hcount.ge]
    have hmoves := sift_moves front back [] x hfront hback
    rw [hcount] at hmoves
    simpa [Nat.add_comm 1 n] using hmoves

end Sorting

/-- What ADD_URL and REMOVE_URL do under the lock of the routes. -/
inductive RouteCommand
  | add (url : Bytes) (queueId : UInt32) (alloc : Bool)
  | remove (url : Bytes)
deriving DecidableEq, Repr

def RouteCommand.apply (routes : Routes) : RouteCommand → CInt × Routes
  | add url queueId alloc => insertUrl routes url queueId alloc
  | remove url => cmdRemoveUrl routes url

def routeTable (cs : List RouteCommand) : Routes := cs.foldl (fun routes c => (c.apply routes).2) []

/-- The registrations that the table stands for: the queue of each registered prefix. -/
abbrev Registrations := Bytes → Option UInt32

def Registrations.update (registered : Registrations) : RouteCommand → Registrations
  | .add url queueId alloc =>
    if registered url = none ∧ alloc then Function.update registered url (some queueId)
    else registered
  | .remove url => Function.update registered url none

theorem Registrations.update_add {registered : Registrations} {url : Bytes}
    (hnone : registered url = none) (queueId : UInt32) :
    registered.update (.add url queueId true) = Function.update registered url (some queueId) :=
  if_pos ⟨hnone, rfl⟩

def registrations (cs : List RouteCommand) : Registrations :=
  cs.foldl Registrations.update fun _ => none

theorem cmdRemoveUrl_eq (routes : Routes) (url : Bytes) :
    (cmdRemoveUrl routes url).2 = routes.eraseP fun r => r.1 = url := by
  rw [List.eraseP_eq_eraseIdx, cmdRemoveUrl]
  cases routes.findIdx? fun r => r.1 = url <;> rfl

theorem not_mem_eraseP {routes : Routes} (hdistinct : (routes.map Prod.fst).Nodup) (url : Bytes)
    (queueId : UInt32) : (url, queueId) ∉ routes.eraseP fun r => r.1 = url := by
  induction routes with
  | nil => exact nofun
  | cons r routes ih =>
    obtain ⟨hr, hrest⟩ := List.nodup_cons.mp hdistinct
    by_cases heq : r.1 = url
    · rw [List.eraseP_cons_of_pos (by simpa using heq)]
      exact fun hmem => hr (heq ▸ List.mem_map_of_mem hmem)
    · rw [List.eraseP_cons_of_neg (by simpa using heq), List.mem_cons]
      rintro (rfl | hmem)
      · exact heq rfl
      · exact ih hrest hmem

structure Represents (routes : Routes) (registered : Registrations) : Prop where
  ranked : Ranked urlLength routes
  distinct : (routes.map Prod.fst).Nodup
  mem_iff : ∀ url queueId, (url, queueId) ∈ routes ↔ registered url = some queueId

namespace Represents

variable {routes : Routes} {registered : Registrations}

theorem any_iff (h : Represents routes registered) (url : Bytes) :
    (routes.any fun r => r.1 = url) = true ↔ registered url ≠ none := by
  rw [List.any_eq_true]
  constructor
  · rintro ⟨⟨url', queueId⟩, hr, heq⟩
    cases of_decide_eq_true heq
    rw [(h.mem_iff url' queueId).mp hr]
    exact nofun
  · intro hsome
    obtain ⟨queueId, hqueue⟩ := Option.ne_none_iff_exists'.mp hsome
    exact ⟨(url, queueId), (h.mem_iff url queueId).mpr hqueue, decide_eq_true rfl⟩

theorem place (h : Represents routes registered) {url : Bytes} (hnone : registered url = none)
    (queueId : UInt32) :
    Represents (place urlLength (url, queueId) routes)
      (Function.update registered url (some queueId)) where
  ranked := h.ranked.place (url, queueId)
  distinct := by
    refine (((place_perm (url, queueId) routes).map Prod.fst).nodup_iff).mpr ?_
    refine List.nodup_cons.mpr ⟨?_, h.distinct⟩
    intro hmem
    obtain ⟨⟨url', queueId'⟩, hr, rfl⟩ := List.mem_map.mp hmem
    rw [(h.mem_iff url' queueId').mp hr] at hnone
    cases hnone
  mem_iff := by
    intro url' queueId'
    rw [(place_perm (url, queueId) routes).mem_iff, List.mem_cons, h.mem_iff]
    by_cases heq : url' = url
    · subst heq
      simp [hnone, eq_comm]
    · simp [heq]

theorem insertUrl (h : Represents routes registered) (url : Bytes) (queueId : UInt32)
    (alloc : Bool) :
    Represents (insertUrl routes url queueId alloc).2
      (registered.update (.add url queueId alloc)) := by
  by_cases hnone : registered url = none
  · have hany : ¬ (routes.any fun r => r.1 = url) = true := fun h' => (h.any_iff url).mp h' hnone
    cases alloc with
    | false => simpa [Rko.insertUrl, hany, Registrations.update] using h
    | true =>
      have hplace := h.place hnone queueId
      rw [Registrations.update_add hnone]
      simpa [Rko.insertUrl, hany, sortRoutes_push h.ranked] using hplace
  · have hany := (h.any_iff url).mpr hnone
    simpa [Rko.insertUrl, hany, Registrations.update, hnone] using h

theorem cmdRemoveUrl (h : Represents routes registered) (url : Bytes) :
    Represents (cmdRemoveUrl routes url).2 (registered.update (.remove url)) := by
  rw [cmdRemoveUrl_eq]
  refine ⟨h.ranked.sublist List.eraseP_sublist,
    h.distinct.sublist (List.eraseP_sublist.map Prod.fst), ?_⟩
  intro url' queueId
  by_cases heq : url' = url
  · subst heq
    simp only [Registrations.update, Function.update_self, reduceCtorEq, iff_false]
    exact not_mem_eraseP h.distinct url' queueId
  · rw [List.mem_eraseP_of_neg (by simpa using heq), h.mem_iff]
    simp [Registrations.update, heq]

theorem apply (h : Represents routes registered) (c : RouteCommand) :
    Represents (c.apply routes).2 (registered.update c) := by
  cases c with
  | add url queueId alloc => exact h.insertUrl url queueId alloc
  | remove url => exact h.cmdRemoveUrl url

theorem foldl (h : Represents routes registered) (cs : List RouteCommand) :
    Represents (cs.foldl (fun routes c => (c.apply routes).2) routes)
      (cs.foldl Registrations.update registered) := by
  induction cs generalizing routes registered with
  | nil => exact h
  | cons c cs ih => exact ih (h.apply c)

end Represents

theorem routeTable_represents (cs : List RouteCommand) :
    Represents (routeTable cs) (registrations cs) :=
  Represents.foldl ⟨List.Pairwise.nil, List.nodup_nil, by simp⟩ cs

def wildcard : Bytes := ascii "/*"

/-- A literal prefix that `path` starts with, and no longer one does. -/
structure Longest (registered : Registrations) (path url : Bytes) (queueId : UInt32) : Prop where
  queue : registered url = some queueId
  literal : url ≠ wildcard
  starts : url <+: path
  longest : ∀ url' queueId', registered url' = some queueId' → url' ≠ wildcard → url' <+: path →
    url'.length ≤ url.length

def NoLiteral (registered : Registrations) (path : Bytes) : Prop :=
  ∀ url, url ≠ wildcard → url <+: path → registered url = none

/-- The documented longest-prefix match with a catch-all. -/
structure RoutingLaw (registered : Registrations) (path : Bytes) (result : Option UInt32) : Prop where
  of_longest : ∀ url queueId, Longest registered path url queueId → result = some queueId
  of_noLiteral : NoLiteral registered path → ∀ queueId, registered wildcard = some queueId →
    result = some queueId
  none_iff : result = none ↔ NoLiteral registered path ∧ registered wildcard = none

section Law

variable {registered : Registrations} {path : Bytes}

theorem exists_longest {url : Bytes} {queueId : UInt32} (hurl : registered url = some queueId)
    (hliteral : url ≠ wildcard) (hstarts : url <+: path) :
    ∃ url' queueId', Longest registered path url' queueId' := by
  induction hn : path.length - url.length using Nat.strong_induction_on generalizing url queueId with
  | _ n ih =>
    by_cases hlongest : ∀ url' queueId', registered url' = some queueId' → url' ≠ wildcard →
        url' <+: path → url'.length ≤ url.length
    · exact ⟨url, queueId, hurl, hliteral, hstarts, hlongest⟩
    · push Not at hlongest
      obtain ⟨url', queueId', hurl', hliteral', hstarts', hlt⟩ := hlongest
      have hle := hstarts'.length_le
      exact ih (path.length - url'.length) (by omega) hurl' hliteral' hstarts' rfl

theorem RoutingLaw.unique {result result' : Option UInt32} (h : RoutingLaw registered path result)
    (h' : RoutingLaw registered path result') : result = result' := by
  by_cases hno : NoLiteral registered path
  · cases hwild : registered wildcard with
    | none => rw [h.none_iff.mpr ⟨hno, hwild⟩, h'.none_iff.mpr ⟨hno, hwild⟩]
    | some queueId => rw [h.of_noLiteral hno queueId hwild, h'.of_noLiteral hno queueId hwild]
  · unfold NoLiteral at hno
    push Not at hno
    obtain ⟨url, hliteral, hstarts, hurl⟩ := hno
    obtain ⟨queueId, hqueue⟩ := Option.ne_none_iff_exists'.mp hurl
    obtain ⟨url', queueId', hlongest⟩ := exists_longest hqueue hliteral hstarts
    rw [h.of_longest url' queueId' hlongest, h'.of_longest url' queueId' hlongest]

/-- The test that `route` makes of an entry. -/
def serves (path : Bytes) (r : Bytes × UInt32) : Bool := r.1 = wildcard || r.1.isPrefixOf path

theorem route_eq (routes : Routes) (path : Bytes) :
    route routes path = (routes.find? (serves path)).map Prod.snd := rfl

theorem Longest.serves {url : Bytes} {queueId : UInt32} (h : Longest registered path url queueId) :
    serves path (url, queueId) = true := by
  simp [Rko.serves, h.starts]

end Law

namespace Represents

variable {routes : Routes} {registered : Registrations} {path : Bytes}

theorem law_of_none (h : Represents routes registered)
    (hfind : routes.find? (serves path) = none) : RoutingLaw registered path none := by
  have hnone : ∀ url queueId, registered url = some queueId → ¬ serves path (url, queueId) = true :=
    fun url queueId hurl => List.find?_eq_none.mp hfind _ ((h.mem_iff url queueId).mpr hurl)
  have hno : NoLiteral registered path := by
    intro url _ hstarts
    by_contra hurl
    obtain ⟨queueId, hqueue⟩ := Option.ne_none_iff_exists'.mp hurl
    exact hnone url queueId hqueue (by simp [serves, hstarts])
  have hwild : registered wildcard = none := by
    by_contra hurl
    obtain ⟨queueId, hqueue⟩ := Option.ne_none_iff_exists'.mp hurl
    exact hnone wildcard queueId hqueue (by simp [serves])
  refine ⟨fun url queueId hlongest => ?_, fun _ queueId hqueue => ?_, by simp [hno, hwild]⟩
  · exact absurd hlongest.serves (hnone url queueId hlongest.queue)
  · rw [hwild] at hqueue
    cases hqueue

theorem law_of_literal (h : Represents routes registered) {r : Bytes × UInt32}
    (hfind : routes.find? (serves path) = some r) (hliteral : r.1 ≠ wildcard) :
    RoutingLaw registered path (some r.2) := by
  have hr : registered r.1 = some r.2 := (h.mem_iff r.1 r.2).mp (List.mem_of_find?_eq_some hfind)
  have hstarts : r.1 <+: path := by
    have := List.find?_some hfind
    simpa [serves, hliteral] using this
  have hno : ¬ NoLiteral registered path := by
    intro hno
    rw [hno r.1 hliteral hstarts] at hr
    cases hr
  refine ⟨fun url queueId hlongest => ?_, fun hno' => absurd hno' hno, by simp [hno]⟩
  have hle : url.length ≤ r.1.length := h.ranked.find?_max hfind
    ((h.mem_iff url queueId).mpr hlongest.queue) hlongest.serves
  have hge := hlongest.longest r.1 r.2 hr hliteral hstarts
  have hprefix := List.prefix_of_prefix_length_le hlongest.starts hstarts hle
  cases hprefix.eq_of_length (by omega)
  exact hr.symm.trans hlongest.queue

theorem law_of_wildcard (h : Represents routes registered) {r : Bytes × UInt32}
    (hfind : routes.find? (serves path) = some r) (hwild : r.1 = wildcard)
    (hclear : ∀ url queueId, Longest registered path url queueId →
      2 < url.length ∨ queueId = r.2) : RoutingLaw registered path (some r.2) := by
  have hr : registered wildcard = some r.2 := by
    rw [← hwild]
    exact (h.mem_iff r.1 r.2).mp (List.mem_of_find?_eq_some hfind)
  refine ⟨fun url queueId hlongest => ?_, fun _ queueId hqueue => ?_, by simp [hr]⟩
  · have hle : url.length ≤ r.1.length := h.ranked.find?_max hfind
      ((h.mem_iff url queueId).mpr hlongest.queue) hlongest.serves
    have hlen : r.1.length = 2 := by
      rw [hwild]
      rfl
    rcases hclear url queueId hlongest with hlt | rfl
    · omega
    · rfl
  · rw [← hr, hqueue]

theorem law (h : Represents routes registered)
    (hclear : ∀ url queueId queueId', registered wildcard = some queueId →
      Longest registered path url queueId' → 2 < url.length ∨ queueId' = queueId) :
    RoutingLaw registered path (route routes path) := by
  rw [route_eq]
  cases hfind : routes.find? (serves path) with
  | none => exact h.law_of_none hfind
  | some r =>
    by_cases hwild : r.1 = wildcard
    · have hr : registered r.1 = some r.2 :=
        (h.mem_iff r.1 r.2).mp (List.mem_of_find?_eq_some hfind)
      exact h.law_of_wildcard hfind hwild fun url queueId' => hclear url r.2 queueId' (hwild ▸ hr)
    · exact h.law_of_literal hfind hwild

end Represents

section Reordering

/-- Register the entries of a table one after the other. -/
def registerAll (routes : Routes) : List RouteCommand := routes.map fun r => .add r.1 r.2 true

theorem foldl_registerAll {registered : Registrations} {routes : Routes}
    (hdistinct : (routes.map Prod.fst).Nodup) (hfresh : ∀ r ∈ routes, registered r.1 = none)
    (url : Bytes) (queueId : UInt32) :
    (registerAll routes).foldl Registrations.update registered url = some queueId ↔
      registered url = some queueId ∨ (url, queueId) ∈ routes := by
  induction routes generalizing registered with
  | nil => simp [registerAll]
  | cons r routes ih =>
    obtain ⟨hr, hrest⟩ := List.nodup_cons.mp hdistinct
    have hnone := hfresh r List.mem_cons_self
    rw [registerAll, List.map_cons, List.foldl_cons, Registrations.update_add hnone]
    rw [← registerAll, ih hrest]
    · by_cases heq : url = r.1
      · subst heq
        simp [hnone, Prod.ext_iff, eq_comm]
      · simp [heq, Prod.ext_iff]
    · intro r' hr'
      have hne : r'.1 ≠ r.1 := fun heq => hr (heq ▸ List.mem_map_of_mem hr')
      rw [Function.update_of_ne hne]
      exact hfresh r' (List.mem_cons_of_mem _ hr')

theorem leads_registerAll {w : Bytes × UInt32} {routes : Routes} {registered : Registrations}
    (h : Represents routes registered) (hleads : Leads urlLength w routes) (rs : Routes) :
    Leads urlLength w ((registerAll rs).foldl (fun routes c => (c.apply routes).2) routes) := by
  induction rs generalizing routes registered with
  | nil => exact hleads
  | cons r rs ih =>
    have hinsert : Leads urlLength w (insertUrl routes r.1 r.2 true).2 := by
      unfold insertUrl
      split
      · exact hleads
      · rw [if_pos rfl, sortRoutes_push h.ranked]
        exact hleads.place _
    exact ih (h.insertUrl r.1 r.2 true) hinsert

/-- The same registrations can be made with the wildcard first. -/
theorem exists_wildcard_first {cs : List RouteCommand} {queueId : UInt32}
    (hwild : registrations cs wildcard = some queueId) :
    ∃ cs', registrations cs' = registrations cs ∧
      Leads urlLength (wildcard, queueId) (routeTable cs') := by
  have h := routeTable_represents cs
  let others := (routeTable cs).filter fun r => r.1 ≠ wildcard
  have hothers : ∀ r ∈ others, r.1 ≠ wildcard := by
    intro r hr
    simpa using (List.mem_filter.mp hr).2
  have hdistinct : (others.map Prod.fst).Nodup :=
    h.distinct.sublist (List.filter_sublist.map Prod.fst)
  refine ⟨.add wildcard queueId true :: registerAll others, ?_, ?_⟩
  · funext url
    refine Option.ext fun queueId' => ?_
    rw [registrations, List.foldl_cons, Registrations.update_add rfl, foldl_registerAll hdistinct]
    · by_cases heq : url = wildcard
      · subst heq
        have hnot : (wildcard, queueId') ∉ others := fun hmem => hothers _ hmem rfl
        simp [hnot, hwild]
      · rw [Function.update_of_ne heq, ← h.mem_iff]
        simp [others, heq]
    · intro r hr
      rw [Function.update_of_ne (hothers r hr)]
  · have hfirst : Represents [(wildcard, queueId)]
        (Registrations.update (fun _ => none) (.add wildcard queueId true)) :=
      Represents.insertUrl ⟨List.Pairwise.nil, List.nodup_nil, by simp⟩ wildcard queueId true
    exact leads_registerAll hfirst ⟨[], [], rfl, nofun⟩ others

end Reordering

/-- For a set of registrations and a path, `route` follows the law in whatever order they were made
exactly if the longest literal match is longer than the wildcard or names the same queue. -/
theorem route_lawful_iff (cs : List RouteCommand) (path : Bytes) :
    (RoutingLaw (registrations cs) path (route (routeTable cs) path) ∧
      ∀ cs', registrations cs' = registrations cs →
        route (routeTable cs') path = route (routeTable cs) path) ↔
      ∀ url queueId queueId', registrations cs wildcard = some queueId →
        Longest (registrations cs) path url queueId' → 2 < url.length ∨ queueId' = queueId := by
  constructor
  · rintro ⟨hlaw, hsame⟩ url queueId queueId' hwild hlongest
    by_contra hnot
    push Not at hnot
    obtain ⟨hshort, hne⟩ := hnot
    obtain ⟨cs', hcs', hleads⟩ := exists_wildcard_first hwild
    have hrep := routeTable_represents cs'
    rw [hcs'] at hrep
    have hfirst : (routeTable cs').find? (serves path) = some (wildcard, queueId) := by
      refine hleads.find? (by simp [serves]) fun r hr hserves => ?_
      by_cases hr' : r.1 = wildcard
      · exact (congrArg List.length hr').le
      · have hstarts : r.1 <+: path := by simpa [serves, hr'] using hserves
        exact (hlongest.longest r.1 r.2 ((hrep.mem_iff r.1 r.2).mp hr) hr' hstarts).trans hshort
    have hroute : route (routeTable cs') path = some queueId := by
      rw [route_eq, hfirst]
      rfl
    rw [hsame cs' hcs', hlaw.of_longest url queueId' hlongest] at hroute
    exact hne (Option.some.inj hroute)
  · intro hclear
    have hlaw := (routeTable_represents cs).law hclear
    refine ⟨hlaw, fun cs' hcs' => ?_⟩
    have hrep := routeTable_represents cs'
    rw [hcs'] at hrep
    exact (hrep.law hclear).unique hlaw

def literalFirst : List RouteCommand := [.add (ascii "/a") 1 true, .add wildcard 2 true]

def wildcardFirst : List RouteCommand := [.add wildcard 2 true, .add (ascii "/a") 1 true]

/-- With `/a` and `/*` registered, a path below `/a` goes to the queue that was registered first. -/
theorem wildcard_hides_literal :
    registrations literalFirst = registrations wildcardFirst ∧
      route (routeTable literalFirst) (ascii "/a/x") = some 1 ∧
      route (routeTable wildcardFirst) (ascii "/a/x") = some 2 ∧
      ¬ RoutingLaw (registrations wildcardFirst) (ascii "/a/x")
        (route (routeTable wildcardFirst) (ascii "/a/x")) := by
  have htable : routeTable wildcardFirst = [(wildcard, 2), (ascii "/a", 1)] := by decide
  have hlongest : Longest (registrations wildcardFirst) (ascii "/a/x") (ascii "/a") 1 := by
    refine ⟨by decide, by decide, by decide, fun url queueId hurl _ _ => ?_⟩
    have hmem := ((routeTable_represents wildcardFirst).mem_iff url queueId).mpr hurl
    rw [htable] at hmem
    simp only [List.mem_cons, Prod.mk.injEq, List.not_mem_nil, or_false] at hmem
    rcases hmem with ⟨rfl, rfl⟩ | ⟨rfl, rfl⟩ <;> decide
  refine ⟨?_, by decide, by decide, fun hlaw => ?_⟩
  · rw [registrations, registrations, literalFirst, wildcardFirst]
    simp only [List.foldl_cons, List.foldl_nil]
    rw [Registrations.update_add rfl, Registrations.update_add (by decide),
      Registrations.update_add rfl, Registrations.update_add (by decide)]
    exact Function.update_comm (by decide) _ _ _
  · exact absurd (hlaw.of_longest _ _ hlongest) (by decide)

end Rko
