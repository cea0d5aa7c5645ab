import Rko.UringRoutes

namespace Rko

open RankedList

/-- ADD_URL on a handler with these queues: `buffer` is the outcome of the allocation for the copy of
the url, `table` that of the push. -/
def cmdAddUrl (queues : Queues) (routes : Routes) (url : Bytes) (queueId : UInt32)
    (buffer table : Bool) : CInt × Routes :=
  if !(queues.any fun q => q.1 = queueId) then (Error.ENOENT.toErrno, routes)
  else if !buffer then (Error.ENOMEM.toErrno, routes)
  else insertUrl routes url queueId table

/-- An ADD_URL comes with the queues that exist when it is issued. -/
inductive UrlCommand
  | add (queues : Queues) (url : Bytes) (queueId : UInt32) (buffer table : Bool)
  | remove (url : Bytes)
deriving DecidableEq, Repr

def UrlCommand.exec (routes : Routes) : UrlCommand → CInt × Routes
  | add queues url queueId buffer table => cmdAddUrl queues routes url queueId buffer table
  | remove url => cmdRemoveUrl routes url

/-- The table with the commands that have returned 0. -/
def UrlCommand.step (x : Routes × List UrlCommand) (c : UrlCommand) : Routes × List UrlCommand :=
  ((c.exec x.1).2, if (c.exec x.1).1 = 0 then x.2 ++ [c] else x.2)

def urlRun (cs : List UrlCommand) : Routes × List UrlCommand := cs.foldl UrlCommand.step ([], [])

/-- What a command does to a map from prefixes to queues. -/
def UrlCommand.onMap (registered : Registrations) : UrlCommand → Registrations
  | add _ url queueId _ _ => Function.update registered url (some queueId)
  | remove url => Function.update registered url none

def mapAfter (done : List UrlCommand) : Registrations :=
  done.foldl UrlCommand.onMap fun _ => none

/-- What a command needs to succeed: a new prefix, an existing queue and memory, or a prefix to take
out. -/
def UrlCommand.Succeeds (registered : Registrations) : UrlCommand → Prop
  | add queues url queueId buffer table => (queues.any fun q => q.1 = queueId) = true ∧
    buffer = true ∧ table = true ∧ registered url = none
  | remove url => registered url ≠ none

/-- What a command does to a list of registrations in the order of their insertion. -/
def UrlCommand.onOrder (inserted : Routes) : UrlCommand → Routes
  | add _ url queueId _ _ => inserted ++ [(url, queueId)]
  | remove url => inserted.filter fun r => r.1 ≠ url

def insertionOrder (done : List UrlCommand) : Routes := done.foldl UrlCommand.onOrder []

def ofLength (n : Nat) (routes : Routes) : Routes := routes.filter fun r => r.1.length = n

/-- The table is the map that the successful commands make, ordered by length and then by age. -/
structure Tabulates (routes : Routes) (done : List UrlCommand) : Prop where
  distinct : (routes.map Prod.fst).Nodup
  longest_first : routes.Pairwise fun r r' => r'.1.length ≤ r.1.length
  oldest_first : ∀ n, ofLength n routes = ofLength n (insertionOrder done)
  mem_iff : ∀ url queueId, (url, queueId) ∈ routes ↔ mapAfter done url = some queueId

section

variable {routes : Routes} {done : List UrlCommand}

theorem insertUrl_cases (routes : Routes) (url : Bytes) (queueId : UInt32) (table : Bool) :
    (insertUrl routes url queueId table).1 ≠ 0 ∧ (insertUrl routes url queueId table).2 = routes ∨
      (routes.any fun r => r.1 = url) = false ∧
        insertUrl routes url queueId table = (0, sortRoutes (routes ++ [(url, queueId)])) := by
  have hexists : Error.EEXIST.toErrno ≠ 0 := by decide
  have hnomem : Error.ENOMEM.toErrno ≠ 0 := by decide
  unfold insertUrl
  split
  next => exact Or.inl ⟨hexists, rfl⟩
  next hany =>
    split
    next => exact Or.inr ⟨Bool.eq_false_of_not_eq_true hany, rfl⟩
    next => exact Or.inl ⟨hnomem, rfl⟩

/-- A command fails and changes nothing, or it returns 0 and does its work. -/
theorem exec_cases (routes : Routes) (c : UrlCommand) :
    (c.exec routes).1 ≠ 0 ∧ (c.exec routes).2 = routes ∨
      (∃ queues url queueId buffer table, c = .add queues url queueId buffer table ∧
        (routes.any fun r => r.1 = url) = false ∧
        c.exec routes = (0, sortRoutes (routes ++ [(url, queueId)]))) ∨
      ∃ url, c = .remove url ∧ c.exec routes = (0, routes.eraseP fun r => r.1 = url) := by
  have hnoent : Error.ENOENT.toErrno ≠ 0 := by decide
  have hnomem : Error.ENOMEM.toErrno ≠ 0 := by decide
  cases c with
  | add queues url queueId buffer table =>
    simp only [UrlCommand.exec, cmdAddUrl]
    split
    next => exact Or.inl ⟨hnoent, rfl⟩
    next =>
      split
      next => exact Or.inl ⟨hnomem, rfl⟩
      next =>
        rcases insertUrl_cases routes url queueId table with hfailed | hdone
        · exact Or.inl hfailed
        · exact Or.inr (Or.inl ⟨queues, url, queueId, buffer, table, rfl, hdone⟩)
  | remove url =>
    have herase := cmdRemoveUrl_eq routes url
    simp only [UrlCommand.exec]
    unfold cmdRemoveUrl at herase ⊢
    split at herase
    next i hfind => exact Or.inr (Or.inr ⟨url, rfl, congrArg (Prod.mk 0) herase⟩)
    next hfind => exact Or.inl ⟨hnoent, rfl⟩

theorem mapAfter_concat (done : List UrlCommand) (c : UrlCommand) :
    mapAfter (done ++ [c]) = c.onMap (mapAfter done) := by
  rw [mapAfter, List.foldl_append]
  rfl

theorem insertionOrder_concat (done : List UrlCommand) (c : UrlCommand) :
    insertionOrder (done ++ [c]) = c.onOrder (insertionOrder done) := by
  rw [insertionOrder, List.foldl_append]
  rfl

theorem ofLength_concat (n : Nat) (routes : Routes) (r : Bytes × UInt32) :
    ofLength n (routes ++ [r]) = ofLength n routes ++ ofLength n [r] := List.filter_append ..

namespace Tabulates

theorem represents (h : Tabulates routes done) : Represents routes (mapAfter done) :=
  ⟨h.longest_first, h.distinct, h.mem_iff⟩

theorem of_represents (h : Represents routes (mapAfter done))
    (horder : ∀ n, ofLength n routes = ofLength n (insertionOrder done)) : Tabulates routes done :=
  ⟨h.distinct, h.ranked, horder, h.mem_iff⟩

theorem insert (h : Tabulates routes done) {queues : Queues} {url : Bytes} {queueId : UInt32}
    {buffer table : Bool} (hnew : (routes.any fun r => r.1 = url) = false) :
    Tabulates (sortRoutes (routes ++ [(url, queueId)]))
      (done ++ [.add queues url queueId buffer table]) := by
  have hnone : mapAfter done url = none := by
    by_contra hsome
    rw [(h.represents.any_iff url).mpr hsome] at hnew
    cases hnew
  rw [sortRoutes_push h.longest_first]
  apply of_represents
  · rw [mapAfter_concat]
    exact h.represents.place hnone queueId
  · intro n
    have hplace : ofLength n (place urlLength (url, queueId) routes) =
        ofLength n routes ++ ofLength n [(url, queueId)] :=
      Ranked.filter_place h.longest_first (url, queueId) n
    rw [insertionOrder_concat, UrlCommand.onOrder, ofLength_concat, ← h.oldest_first n, hplace]

/-- Where the prefixes are distinct, taking out one entry takes out all entries of its prefix. -/
theorem eraseP_eq_filter (hdistinct : (routes.map Prod.fst).Nodup) (url : Bytes) :
    (routes.eraseP fun r => r.1 = url) = routes.filter fun r => r.1 ≠ url := by
  induction routes with
  | nil => rfl
  | cons r routes ih =>
    obtain ⟨hr, hrest⟩ := List.nodup_cons.mp hdistinct
    by_cases heq : r.1 = url
    · have hothers : ∀ r' ∈ routes, r'.1 ≠ url := by
        intro r' hr' hurl
        exact hr (List.mem_map.mpr ⟨r', hr', hurl.trans heq.symm⟩)
      have hall : (routes.filter fun r => r.1 ≠ url) = routes :=
        List.filter_eq_self.mpr fun r' hr' => decide_eq_true (hothers r' hr')
      rw [List.eraseP_cons_of_pos (by simpa using heq), List.filter_cons_of_neg (by simpa using heq),
        hall]
    · rw [List.eraseP_cons_of_neg (by simpa using heq), List.filter_cons_of_pos (by simpa using heq),
        ih hrest]

theorem remove (h : Tabulates routes done) (url : Bytes) :
    Tabulates (routes.eraseP fun r => r.1 = url) (done ++ [.remove url]) := by
  apply of_represents
  · have hremoved := h.represents.cmdRemoveUrl url
    rw [cmdRemoveUrl_eq] at hremoved
    rw [mapAfter_concat]
    exact hremoved
  · intro n
    have hcomm : ∀ rs : Routes, ofLength n (rs.filter fun r => r.1 ≠ url) =
        (ofLength n rs).filter fun r => r.1 ≠ url := by
      intro rs
      simp only [ofLength, List.filter_filter, Bool.and_comm]
    rw [eraseP_eq_filter h.distinct, insertionOrder_concat, UrlCommand.onOrder, hcomm, hcomm,
      h.oldest_first n]

theorem step (h : Tabulates routes done) (c : UrlCommand) :
    Tabulates (c.step (routes, done)).1 (c.step (routes, done)).2 := by
  rcases exec_cases routes c with ⟨hcode, hsame⟩ | ⟨queues, url, queueId, buffer, table, rfl, hnew, hexec⟩ |
    ⟨url, rfl, hexec⟩
  · simp only [UrlCommand.step, if_neg hcode, hsame]
    exact h
  · simp only [UrlCommand.step, hexec, if_true]
    exact h.insert hnew
  · simp only [UrlCommand.step, hexec, if_true]
    exact h.remove url

theorem run (h : Tabulates routes done) (cs : List UrlCommand) :
    Tabulates (cs.foldl UrlCommand.step (routes, done)).1
      (cs.foldl UrlCommand.step (routes, done)).2 := by
  induction cs generalizing routes done with
  | nil => exact h
  | cons c cs ih => exact ih (h.step c)

/-- Whether a command returns 0 can be told from the map. -/
theorem exec_eq_zero_iff (h : Tabulates routes done) (c : UrlCommand) :
    (c.exec routes).1 = 0 ↔ c.Succeeds (mapAfter done) := by
  have hnoent : Error.ENOENT.toErrno ≠ 0 := by decide
  have hnomem : Error.ENOMEM.toErrno ≠ 0 := by decide
  have hexists : Error.EEXIST.toErrno ≠ 0 := by decide
  cases c with
  | add queues url queueId buffer table =>
    have hany := h.represents.any_iff url
    simp only [UrlCommand.exec, cmdAddUrl, UrlCommand.Succeeds]
    cases queues.any fun q => q.1 = queueId with
    | false => exact ⟨fun hcode => absurd hcode hnoent, fun hs => absurd hs.1 Bool.false_ne_true⟩
    | true =>
      cases buffer with
      | false => exact ⟨fun hcode => absurd hcode hnomem, fun hs => absurd hs.2.1 Bool.false_ne_true⟩
      | true =>
        show (insertUrl routes url queueId table).1 = 0 ↔ _
        cases hfound : routes.any fun r => r.1 = url with
        | true =>
          rw [insertUrl, if_pos hfound]
          exact ⟨fun hcode => absurd hcode hexists, fun hs => absurd hs.2.2.2 (hany.mp hfound)⟩
        | false =>
          have hnew : ¬ (routes.any fun r => r.1 = url) = true := Bool.not_eq_true _ ▸ hfound
          have hnone : mapAfter done url = none := not_not.mp (mt hany.mpr hnew)
          rw [insertUrl, if_neg hnew]
          cases table with
          | false => exact ⟨fun hcode => absurd hcode hnomem, fun hs => absurd hs.2.2.1 Bool.false_ne_true⟩
          | true => exact ⟨fun _ => ⟨rfl, rfl, rfl, hnone⟩, fun _ => rfl⟩
  | remove url =>
    simp only [UrlCommand.exec, UrlCommand.Succeeds, ← h.represents.any_iff url]
    unfold cmdRemoveUrl
    split
    next i hfind =>
      obtain ⟨hi, hurl, -⟩ := List.findIdx?_eq_some_iff_getElem.mp hfind
      simp only [List.any_eq_true, true_iff]
      exact ⟨_, List.getElem_mem hi, hurl⟩
    next hfind =>
      simp only [hnoent, false_iff, Bool.not_eq_true, List.any_eq_false]
      intro r hr
      simpa using List.findIdx?_eq_none_iff.mp hfind r hr

end Tabulates

end

/-- After any commands the table is what those that returned 0 make of an empty map, and a command
that returns an error leaves it as it is. -/
theorem route_table_refines_map (cs : List UrlCommand) :
    Tabulates (urlRun cs).1 (urlRun cs).2 ∧
      ∀ c : UrlCommand, (c.exec (urlRun cs).1).1 ≠ 0 → (c.exec (urlRun cs).1).2 = (urlRun cs).1 := by
  have hempty : Tabulates [] [] := ⟨List.nodup_nil, List.Pairwise.nil, fun _ => rfl, by simp [mapAfter]⟩
  refine ⟨hempty.run cs, fun c hcode => ?_⟩
  rcases exec_cases (urlRun cs).1 c with ⟨-, hsame⟩ | ⟨_, _, _, _, _, -, -, hexec⟩ | ⟨_, -, hexec⟩
  · exact hsame
  · exact absurd (congrArg Prod.fst hexec) hcode
  · exact absurd (congrArg Prod.fst hexec) hcode

/-- A longer prefix goes before a shorter one; the second registration of a prefix and the removal
of an unknown one fail. -/
example : (urlRun [.add [(1, ⟨1, 256, []⟩)] [47] 1 true true,
      .add [(1, ⟨1, 256, []⟩)] [47, 97] 1 true true, .add [(1, ⟨1, 256, []⟩)] [47] 1 true true,
      .remove [98]]).1 = [([47, 97], 1), ([47], 1)] := by
  decide

end Rko
