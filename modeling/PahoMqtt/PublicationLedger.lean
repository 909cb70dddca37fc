import PahoMqtt.PublicationMemory

/-!
# Publications are freed once

At the end of each function every block is accounted for once: it belongs to a
publication of the list, to which one message or one pending write points, or the
queue of messages has it, or it was leaked, which happens only in an exchange of
MQTT 5 whose PUBLISH came more than once.
-/

namespace PahoMqtt
namespace PublicationMemory

/-! ### The ledger of the blocks -/

/--
Each block that is allocated is one of a publication of the list, or was passed on or
leaked, or is held by the function that runs; each publication has one pointer to it.
Only the payload of one that has just been stored may be in a packet.
-/
structure Ledger (st : Store) (held refs : List Nat) (unfilled : Option Nat) (leaked : List Nat) :
    Prop where
  nodup : st.allocated.Nodup
  fresh : ∀ a ∈ st.allocated, a < st.fresh
  blocks : st.allocated.Perm (st.publications.flatMap (·.blocks) ++
    (st.passed.flatMap (·.blocks) ++ (st.leaked ++ held)))
  refs : (st.publications.map (·.addr)).Perm refs
  kept : ∀ p ∈ st.publications, p.refcount = 1 ∧ (∃ t, p.topic = .block t) ∧
    (p.payload = .packet ↔ unfilled = some p.addr)
  passed : Pointer.packet ∉ st.passed
  leaked_eq : st.leaked = leaked

namespace Ledger

variable {st : Store} {held refs leaked : List Nat} {unfilled : Option Nat}

theorem malloc
    (h : Ledger st held refs unfilled leaked) :
    Ledger st.malloc.2 (st.malloc.1 :: held) refs unfilled leaked := by
  refine ⟨?_, ?_, ?_, h.refs, h.kept, h.passed, h.leaked_eq⟩
  · refine List.nodup_cons.mpr ⟨fun hmem => ?_, h.nodup⟩
    exact lt_irrefl _ (h.fresh _ hmem)
  · intro a ha
    rcases List.mem_cons.mp ha with rfl | ha
    · exact Nat.lt_succ_self _
    · exact (h.fresh a ha).trans (Nat.lt_succ_self _)
  · refine List.perm_iff_count.mpr fun a => ?_
    have hcount := h.blocks.count_eq a
    simp only [Store.malloc, List.count_append, List.count_cons] at hcount ⊢
    omega

/-- A block that is held can be freed. -/
theorem released
    {ptr : Pointer}
    (h : Ledger st (ptr.blocks ++ held) refs unfilled leaked)
    (hptr : ptr ≠ .packet) :
    ∃ allocated, Store.released st.allocated ptr = some allocated ∧
      Ledger { st with allocated } held refs unfilled leaked := by
  cases ptr with
  | null => exact ⟨_, rfl, h⟩
  | packet => exact absurd rfl hptr
  | block addr =>
      have hperm : (addr :: (st.publications.flatMap (·.blocks) ++
          (st.passed.flatMap (·.blocks) ++ (st.leaked ++ held)))).Perm st.allocated := by
        refine List.perm_iff_count.mpr fun a => ?_
        have hcount := h.blocks.count_eq a
        simp only [Pointer.blocks, List.singleton_append, List.count_append,
          List.count_cons] at hcount ⊢
        omega
      obtain ⟨hmem, hrest⟩ := List.cons_perm_iff_perm_erase.mp hperm
      refine ⟨st.allocated.erase addr, if_pos hmem, h.nodup.erase addr, ?_, hrest.symm, h.refs,
        h.kept, h.passed, h.leaked_eq⟩
      exact fun a ha => h.fresh a (List.mem_of_mem_erase ha)

theorem addr_nodup
    (h : Ledger st held refs unfilled leaked) :
    (st.publications.map (·.addr)).Nodup := by
  have hsublist : ∀ l : List Publications,
      (l.map (·.addr)).Sublist (l.flatMap (·.blocks)) := by
    intro l
    induction l with
    | nil => exact List.Sublist.slnil
    | cons p l ih =>
        rw [List.map_cons, List.flatMap_cons, Publications.blocks, List.cons_append]
        exact (ih.trans (List.sublist_append_right _ _)).cons_cons _
  have hnodup := h.blocks.nodup_iff.mp h.nodup
  exact (hnodup.sublist (List.sublist_append_left _ _)).sublist (hsublist _)

/-- A publication to which there is a pointer is found. -/
theorem publication
    (h : Ledger st held refs unfilled leaked)
    {addr : Nat}
    (haddr : addr ∈ refs) :
    ∃ p ∈ st.publications, p.addr = addr ∧ st.publication (some addr) = some p := by
  obtain ⟨q, hq, rfl⟩ := List.mem_map.mp (h.refs.mem_iff.mpr haddr)
  have hfound : (st.publications.find? (·.addr = q.addr)).isSome :=
    List.find?_isSome.mpr ⟨q, hq, decide_eq_true rfl⟩
  obtain ⟨p, hp⟩ := Option.isSome_iff_exists.mp hfound
  refine ⟨p, List.mem_of_find?_eq_some hp, ?_, hp⟩
  simpa using List.find?_some hp

/-- What a publication of the list points to can be sent. -/
theorem send
    (h : Ledger st held refs unfilled leaked)
    {p : Publications}
    (hp : p ∈ st.publications) :
    st.send p = some () := by
  have hread : ∀ ptr : Pointer, ptr.blocks ⊆ p.blocks → ptr ≠ .null → st.read ptr = some () := by
    intro ptr hblocks hptr
    cases ptr with
    | null => exact absurd rfl hptr
    | packet => rfl
    | block addr =>
        refine if_pos (h.blocks.mem_iff.mpr (List.mem_append_left _ ?_))
        exact List.mem_flatMap.mpr ⟨p, hp, hblocks List.mem_cons_self⟩
  obtain ⟨-, ⟨topic, htopic⟩, -⟩ := h.kept p hp
  have htopic' := hread p.topic (fun a ha => by simp [Publications.blocks, ha]) (by simp [htopic])
  by_cases hpayload : p.payload = .null
  · simp [Store.send, htopic', hpayload]
  · have hpayload' := hread p.payload (fun a ha => by simp [Publications.blocks, ha]) hpayload
    simp [Store.send, htopic', hpayload, hpayload']

/-- A publication and the others of the list, which have other addresses. -/
theorem split
    (h : Ledger st held refs unfilled leaked)
    {p : Publications}
    (hp : p ∈ st.publications) :
    st.publications.Perm (p :: st.publications.eraseP (·.addr = p.addr)) ∧
      ∀ t ∈ st.publications.eraseP (·.addr = p.addr), t ∈ st.publications ∧ t.addr ≠ p.addr := by
  obtain ⟨q, before, after, -, hq, hsplit, herase⟩ :=
    @List.exists_of_eraseP _ (fun q : Publications => q.addr = p.addr) _ _ hp (decide_eq_true rfl)
  have hnodup := h.addr_nodup
  obtain rfl : q = p := by
    refine List.inj_on_of_nodup_map hnodup ?_ hp (by simpa using hq)
    rw [hsplit]
    exact List.mem_append_right _ List.mem_cons_self
  have hperm : st.publications.Perm (q :: st.publications.eraseP (·.addr = q.addr)) := by
    rw [herase, hsplit]
    exact List.perm_middle
  refine ⟨hperm, fun t ht => ?_⟩
  have hnodup' := (hperm.map (·.addr)).nodup_iff.mp hnodup
  rw [List.map_cons, List.nodup_cons] at hnodup'
  refine ⟨hperm.mem_iff.mpr (List.mem_cons_of_mem _ ht), fun heq => hnodup'.1 ?_⟩
  exact List.mem_map.mpr ⟨t, ht, heq⟩

/-- A publication is taken off the list, and its blocks are held. -/
theorem take
    (h : Ledger st held refs unfilled leaked)
    {p : Publications} {refs' : List Nat} {unfilled' : Option Nat}
    (hp : p ∈ st.publications)
    (hrefs : refs.Perm (p.addr :: refs'))
    (hunfilled : ∀ a, a ≠ p.addr → (unfilled = some a ↔ unfilled' = some a)) :
    Ledger { st with publications := st.publications.eraseP (·.addr = p.addr) }
      (p.blocks ++ held) refs' unfilled' leaked := by
  obtain ⟨hperm, hmem⟩ := h.split hp
  refine ⟨h.nodup, h.fresh, ?_, ?_, ?_, h.passed, h.leaked_eq⟩
  · refine List.perm_iff_count.mpr fun a => ?_
    have hcount := h.blocks.count_eq a
    have hpublications := (hperm.flatMap_right (·.blocks)).count_eq a
    simp only [List.flatMap_cons, List.count_append] at hcount hpublications ⊢
    omega
  · have hmap := (hperm.map (·.addr)).symm.trans (h.refs.trans hrefs)
    exact List.Perm.cons_inv hmap
  · intro t ht
    obtain ⟨hstored, hne⟩ := hmem t ht
    obtain ⟨hcount, htopic, hpayload⟩ := h.kept t hstored
    exact ⟨hcount, htopic, hpayload.trans (hunfilled _ hne)⟩

theorem free
    {ptr : Pointer}
    (h : Ledger st (ptr.blocks ++ held) refs unfilled leaked)
    (hptr : ptr ≠ .packet) :
    ∃ st', st.free ptr = some st' ∧ Ledger st' held refs unfilled leaked := by
  obtain ⟨allocated, hreleased, hledger⟩ := h.released hptr
  exact ⟨_, by rw [Store.free, hreleased]; rfl, hledger⟩

/-- The structure of a publication that has been taken off the list is freed. -/
theorem unlink
    {p : Publications}
    (hp : p ∈ st.publications)
    (h : Ledger { st with publications := st.publications.eraseP (·.addr = p.addr) }
      (p.addr :: held) refs unfilled leaked) :
    ∃ st', st.listRemove p.addr = some st' ∧ Ledger st' held refs unfilled leaked := by
  obtain ⟨st', hfree, hledger⟩ := @free _ _ _ _ _ (.block p.addr) h (by simp)
  have hany : st.publications.any (·.addr = p.addr) = true :=
    List.any_eq_true.mpr ⟨p, hp, decide_eq_true rfl⟩
  exact ⟨st', by rw [Store.listRemove, if_pos hany]; exact hfree, hledger⟩

/-- The only pointer to a publication is given up, and all its blocks are freed. -/
theorem removePublication
    (h : Ledger st held refs unfilled leaked)
    {addr : Nat} {refs' : List Nat}
    (hrefs : refs.Perm (addr :: refs'))
    (hfilled : unfilled ≠ some addr) :
    ∃ st', st.removePublication (some addr) = some st' ∧ Ledger st' held refs' unfilled leaked := by
  obtain ⟨p, hp, rfl, hfound⟩ := h.publication (hrefs.mem_iff.mpr List.mem_cons_self)
  obtain ⟨hcount, ⟨topic, htopic⟩, hpayload⟩ := h.kept p hp
  have htaken := h.take hp hrefs fun _ _ => Iff.rfl
  have hblocks : Ledger { st with publications := st.publications.eraseP (·.addr = p.addr) }
      (p.payload.blocks ++ (p.topic.blocks ++ (p.addr :: held))) refs' unfilled leaked := by
    refine { htaken with blocks := htaken.blocks.trans (List.perm_iff_count.mpr fun a => ?_) }
    simp only [Publications.blocks, List.count_append, List.count_cons]
    omega
  -- the frees do not depend on the list from which the publication has been taken
  obtain ⟨afterPayload, hfreePayload, h₁⟩ := hblocks.released fun hpacket => hfilled
    (hpayload.mp hpacket)
  obtain ⟨afterTopic, hfreeTopic, h₂⟩ := h₁.released (by rw [htopic]; simp)
  obtain ⟨afterAddr, hfreeAddr, h₃⟩ := @released _ _ _ _ _ (.block p.addr) h₂ (by simp)
  refine ⟨_, ?_, h₃⟩
  have hany : st.publications.any (·.addr = p.addr) = true :=
    List.any_eq_true.mpr ⟨p, hp, decide_eq_true rfl⟩
  dsimp only at hfreePayload hfreeTopic hfreeAddr
  simp only [Store.removePublication, hfound, hcount, Store.free, hfreePayload, hfreeTopic,
    hfreeAddr, Store.listRemove, hany, Option.map_some, Option.bind_eq_bind, Option.bind_some,
    reduceCtorEq, if_false, if_true, sub_self]

/-- A publication is stored with the blocks of its topic and its payload. -/
theorem storePublication
    {topic : Nat} {payload : Pointer}
    (h : Ledger st (topic :: (payload.blocks ++ held)) refs none leaked) :
    Ledger (st.storePublication (.block topic) payload).2 held (st.fresh :: refs)
        (if payload = .packet then some st.fresh else none) leaked ∧
      (st.storePublication (.block topic) payload).1 = st.fresh ∧ st.fresh ∉ refs ∧
      (st.storePublication (.block topic) payload).2.publication (some st.fresh) =
        some ⟨st.fresh, .block topic, payload, 1⟩ := by
  have hmalloc := h.malloc
  have hnew : st.fresh ∉ refs := by
    intro hmem
    obtain ⟨p, hp, haddr⟩ := List.mem_map.mp (h.refs.mem_iff.mpr hmem)
    have hblock : st.fresh ∈ st.publications.flatMap (·.blocks) :=
      List.mem_flatMap.mpr ⟨p, hp, by rw [Publications.blocks, haddr]; exact List.mem_cons_self⟩
    exact lt_irrefl _ (h.fresh _ (h.blocks.mem_iff.mpr (List.mem_append_left _ hblock)))
  refine ⟨⟨hmalloc.nodup, hmalloc.fresh, ?_, ?_, ?_, hmalloc.passed, hmalloc.leaked_eq⟩,
    rfl, hnew, ?_⟩
  · refine List.perm_iff_count.mpr fun a => ?_
    have hcount := hmalloc.blocks.count_eq a
    simp only [Store.storePublication, Store.malloc, Publications.blocks, Pointer.blocks,
      List.flatMap_append, List.flatMap_cons, List.flatMap_nil, List.count_append,
      List.count_cons, List.count_nil] at hcount ⊢
    omega
  · rw [Store.storePublication]
    simp only [List.map_append, List.map_cons, List.map_nil]
    exact (List.perm_append_singleton _ _).trans (h.refs.cons _)
  · intro p hp
    rcases List.mem_append.mp hp with hold | hlast
    · obtain ⟨hcount, htopic, hpayload⟩ := h.kept p hold
      have hne : st.fresh ≠ p.addr := by
        rintro heq
        exact hnew (h.refs.mem_iff.mp (List.mem_map.mpr ⟨p, hold, heq.symm⟩))
      refine ⟨hcount, htopic, hpayload.trans ?_⟩
      split <;> simp [hne]
    · obtain rfl := List.mem_singleton.mp hlast
      exact ⟨rfl, ⟨topic, rfl⟩, by split <;> simp [*]⟩
  · have hnone : st.publications.find? (·.addr = st.fresh) = none := by
      refine List.find?_eq_none.mpr fun p hp haddr => hnew (h.refs.mem_iff.mp ?_)
      exact List.mem_map.mpr ⟨p, hp, by simpa using haddr⟩
    rw [Store.publication]
    show List.find? (fun q : Publications => q.addr = st.fresh) (st.publications ++ [_]) = _
    rw [List.find?_append, hnone]
    simp

/-- The copy of the payload that a publication is given. -/
theorem setPublication
    {addr : Nat} {p : Publications}
    (h : Ledger st (addr :: held) refs (some p.addr) leaked)
    (hp : p ∈ st.publications)
    (hpacket : p.payload = .packet) :
    Ledger (st.setPublication { p with payload := .block addr }) held refs none leaked := by
  obtain ⟨hperm, hmem⟩ := h.split hp
  have hrest : (st.publications.eraseP (·.addr = p.addr)).map
      (fun q => if q.addr = p.addr then { p with payload := .block addr } else q) =
        st.publications.eraseP (·.addr = p.addr) := by
    refine (List.map_congr_left fun t ht => if_neg (hmem t ht).2).trans (List.map_id' _)
  have hset : (st.setPublication { p with payload := .block addr }).publications.Perm
      ({ p with payload := .block addr } :: st.publications.eraseP (·.addr = p.addr)) := by
    have hmap := hperm.map
      (fun q => if q.addr = p.addr then { p with payload := .block addr } else q)
    rw [List.map_cons, if_pos rfl, hrest] at hmap
    exact hmap
  refine ⟨h.nodup, h.fresh, ?_, ?_, ?_, h.passed, h.leaked_eq⟩
  · refine List.perm_iff_count.mpr fun a => ?_
    have hcount := h.blocks.count_eq a
    have hold := (hperm.flatMap_right (·.blocks)).count_eq a
    have hnew := (hset.flatMap_right (·.blocks)).count_eq a
    simp only [Publications.blocks, Pointer.blocks, hpacket, List.flatMap_cons, List.count_append,
      List.count_cons, List.count_nil] at hcount hold hnew ⊢
    simp only [Store.setPublication] at hnew ⊢
    omega
  · exact ((hset.map (·.addr)).trans (hperm.map (·.addr)).symm).trans h.refs
  · intro t ht
    rcases List.mem_cons.mp (hset.mem_iff.mp ht) with rfl | hold
    · obtain ⟨hcount, htopic, -⟩ := h.kept p hp
      exact ⟨hcount, htopic, by simp⟩
    · obtain ⟨hstored, hne⟩ := hmem t hold
      obtain ⟨hcount, htopic, hpayload⟩ := h.kept t hstored
      refine ⟨hcount, htopic, hpayload.trans ?_⟩
      simp [hne.symm]

/-- What is passed on belongs to the queue of messages. -/
theorem pass
    {topic payload : Pointer}
    (h : Ledger st (topic.blocks ++ (payload.blocks ++ held)) refs unfilled leaked)
    (htopic : topic ≠ .packet)
    (hpayload : payload ≠ .packet) :
    Ledger { st with passed := st.passed ++ [topic, payload] } held refs unfilled leaked := by
  refine ⟨h.nodup, h.fresh, ?_, h.refs, h.kept, ?_, h.leaked_eq⟩
  · refine List.perm_iff_count.mpr fun a => ?_
    have hcount := h.blocks.count_eq a
    simp only [List.flatMap_append, List.flatMap_cons, List.flatMap_nil, List.count_append,
      List.count_nil] at hcount ⊢
    omega
  · rw [List.mem_append, List.mem_cons, List.mem_singleton]
    rintro (hmem | hmem | hmem)
    · exact h.passed hmem
    · exact htopic hmem.symm
    · exact hpayload hmem.symm

theorem leak
    {blocks : List Nat}
    (h : Ledger st (blocks ++ held) refs unfilled leaked) :
    Ledger { st with leaked := st.leaked ++ blocks } held refs unfilled (leaked ++ blocks) := by
  refine ⟨h.nodup, h.fresh, ?_, h.refs, h.kept, h.passed, by rw [h.leaked_eq]⟩
  refine h.blocks.trans (List.perm_iff_count.mpr fun a => ?_)
  simp only [List.count_append]
  omega

theorem block_mem
    {addr : Nat}
    (h : Ledger st (addr :: held) refs unfilled leaked) :
    addr ∈ st.allocated :=
  h.blocks.mem_iff.mpr (List.mem_append_right _ (List.mem_append_right _
    (List.mem_append_right _ List.mem_cons_self)))

/-- A message is made of the topic and a copy of the payload. -/
theorem copied
    {topic : Nat}
    (h : Ledger st (topic :: held) refs unfilled leaked) :
    Ledger
      { st with
        allocated := st.fresh :: st.allocated
        fresh := st.fresh + 1
        passed := st.passed ++ [.block topic, .block st.fresh] } held refs unfilled leaked := by
  have hmalloc := h.malloc
  have hheld : Ledger st.malloc.2
      ((Pointer.block topic).blocks ++ ((Pointer.block st.fresh).blocks ++ held)) refs unfilled
      leaked := by
    refine { hmalloc with blocks := hmalloc.blocks.trans (List.perm_iff_count.mpr fun a => ?_) }
    simp only [Store.malloc, Pointer.blocks, List.singleton_append, List.count_append,
      List.count_cons]
    omega
  exact hheld.pass (by simp) (by simp)

theorem processPublication_copies
    {topic : Nat} {payload : Pointer}
    (htopic : topic ∈ st.allocated)
    (hpayload : st.read payload = some ()) :
    st.processPublication (.block topic) payload true = some
      { st with
        allocated := st.fresh :: st.allocated
        fresh := st.fresh + 1
        passed := st.passed ++ [.block topic, .block st.fresh] } := by
  simp only [Store.processPublication, if_true, hpayload, Store.malloc]
  simp [Store.read, htopic]

theorem processPublication_passes
    {topic : Nat} {payload : Pointer}
    (htopic : topic ∈ st.allocated) :
    st.processPublication (.block topic) payload false = some
      { st with passed := st.passed ++ [.block topic, payload] } := by
  simp [Store.processPublication, Store.read, htopic]

end Ledger

/-! ### The messages -/

/-- The publications that messages point to. -/
def pointers (msgs : List Messages) : List Nat :=
  msgs.filterMap (·.publish)

theorem pointers_cons
    (m : Messages) (msgs : List Messages) :
    pointers (m :: msgs) = m.publish.toList ++ pointers msgs := by
  cases h : m.publish <;> simp [pointers, h]

theorem pointers_append
    (msgs : List Messages) (m : Messages) :
    pointers (msgs ++ [m]) = pointers msgs ++ m.publish.toList := by
  cases h : m.publish <;> simp [pointers, h]

def State.refs (s : State) : List Nat :=
  pointers s.outboundMsgs ++ (pointers s.inboundMsgs ++ s.pending_writes.map (·.2))

/-- The message that was found, and the others. -/
theorem removeMsg_perm
    {msgs : List Messages} {msgid : MsgId} {m : Messages}
    (hfound : findMsg msgs msgid = some m) :
    msgs.Perm (m :: removeMsg msgs msgid) ∧ m.msgid = msgid ∧
      ∀ m', (replaceMsg msgid m' msgs).Perm (m' :: removeMsg msgs msgid) := by
  induction msgs with
  | nil => cases hfound
  | cons msg msgs ih =>
      unfold findMsg at hfound
      by_cases hid : msg.msgid = msgid
      · rw [List.find?_cons_of_pos (by simpa using hid)] at hfound
        obtain rfl := Option.some.inj hfound
        unfold removeMsg replaceMsg
        rw [List.eraseP_cons_of_pos (by simpa using hid)]
        simp only [if_pos hid]
        exact ⟨List.Perm.refl _, hid, fun m' => List.Perm.refl _⟩
      · rw [List.find?_cons_of_neg (by simpa using hid)] at hfound
        obtain ⟨hperm, hm, hreplace⟩ := ih hfound
        unfold removeMsg replaceMsg
        rw [List.eraseP_cons_of_neg (by simpa using hid)]
        simp only [if_neg hid]
        refine ⟨(hperm.cons msg).trans (List.Perm.swap _ _ _), hm, fun m' => ?_⟩
        exact ((hreplace m').cons msg).trans (List.Perm.swap _ _ _)

section FoundMessage

variable {msgs : List Messages} {msgid : MsgId} {msg : Messages}

theorem pointers_removeMsg
    (hfound : findMsg msgs msgid = some msg) :
    (pointers msgs).Perm (msg.publish.toList ++ pointers (removeMsg msgs msgid)) := by
  obtain ⟨hperm, -, -⟩ := removeMsg_perm hfound
  rw [← pointers_cons]
  exact hperm.filterMap (·.publish)

theorem pointers_replaceMsg
    (hfound : findMsg msgs msgid = some msg)
    (m : Messages) :
    (pointers (replaceMsg msgid m msgs)).Perm
      (m.publish.toList ++ pointers (removeMsg msgs msgid)) := by
  obtain ⟨-, -, hreplace⟩ := removeMsg_perm hfound
  rw [← pointers_cons]
  exact (hreplace m).filterMap (·.publish)

theorem forall_replaceMsg
    {P : Messages → Prop} {m : Messages}
    (hfound : findMsg msgs msgid = some msg)
    (hall : ∀ t ∈ msgs, P t)
    (hm : P m) :
    ∀ t ∈ replaceMsg msgid m msgs, P t := by
  obtain ⟨-, -, hreplace⟩ := removeMsg_perm hfound
  intro t ht
  rcases List.mem_cons.mp ((hreplace m).mem_iff.mp ht) with rfl | hold
  · exact hm
  · exact hall t (List.mem_of_mem_eraseP hold)

theorem forall_concat
    {P : Messages → Prop} {m : Messages}
    (hall : ∀ t ∈ msgs, P t)
    (hm : P m) :
    ∀ t ∈ msgs ++ [m], P t :=
  List.forall_mem_append.mpr ⟨hall, List.forall_mem_singleton.mpr hm⟩

end FoundMessage

/-- A message of MQTT 5 whose publication has been passed on points to none. -/
def Drained (msgs : List Messages) : Prop :=
  ∀ m ∈ msgs, m.MQTTVersion ≥ 5 → m.publish = none

/-- Every function leaves the ledger balanced. -/
structure Owned (s : State) (leaked : List Nat) : Prop where
  ledger : Ledger s.store [] s.refs none leaked
  outbound : ∀ m ∈ s.outboundMsgs, m.publish.isSome
  inbound : ∀ m ∈ s.inboundMsgs, m.MQTTVersion < 5 → m.publish.isSome

namespace Owned

variable {s : State} {leaked : List Nat}

/-- A message of the outbound list leaves it with its publication. -/
theorem acknowledged
    (h : Owned s leaked)
    {msgid : MsgId} {m : Messages}
    (hfound : findMsg s.outboundMsgs msgid = some m) :
    ∃ s', s.acknowledged m = some s' ∧ Owned s' leaked ∧ s'.inboundMsgs = s.inboundMsgs := by
  obtain ⟨-, rfl, -⟩ := removeMsg_perm hfound
  have hmem : m ∈ s.outboundMsgs := List.mem_of_find?_eq_some hfound
  obtain ⟨addr, haddr⟩ := Option.isSome_iff_exists.mp (h.outbound m hmem)
  have hrefs : s.refs.Perm (addr :: (pointers (removeMsg s.outboundMsgs m.msgid) ++
      (pointers s.inboundMsgs ++ s.pending_writes.map (·.2)))) := by
    have hpointers := pointers_removeMsg hfound
    rw [haddr] at hpointers
    exact hpointers.append_right _
  obtain ⟨store, hremove, hledger⟩ := h.ledger.removePublication hrefs nofun
  refine ⟨{ s with store, outboundMsgs := removeMsg s.outboundMsgs m.msgid },
    by rw [State.acknowledged, haddr, hremove]; rfl, ⟨hledger, ?_, h.inbound⟩, rfl⟩
  exact fun t ht => h.outbound t (List.mem_of_mem_eraseP ht)

/-- What is left to the caller of its pointers can be freed. -/
theorem startPublish
    {topic : Nat} {payload : Pointer}
    (hledger : Ledger s.store (topic :: (payload.blocks ++ [])) s.refs none leaked)
    (hpayload : payload ≠ .packet)
    (houtbound : ∀ m ∈ s.outboundMsgs, m.publish.isSome)
    (qos : Nat) (msgid : MsgId) (MQTTVersion socket : Nat) (interrupted : Bool) :
    ∃ topic' payload' s',
      s.startPublish qos msgid MQTTVersion socket interrupted (.block topic) payload =
        (topic', payload', s') ∧ topic' ≠ .packet ∧ payload' ≠ .packet ∧
      Ledger s'.store (topic'.blocks ++ (payload'.blocks ++ [])) s'.refs none leaked ∧
      (∀ m ∈ s'.outboundMsgs, m.publish.isSome) ∧ s'.inboundMsgs = s.inboundMsgs := by
  obtain ⟨hstored, -⟩ := hledger.storePublication
  rw [if_neg hpayload] at hstored
  unfold State.startPublish
  by_cases hqos : qos > 0
  · rw [if_pos hqos]
    refine ⟨_, _, _, rfl, by simp, by simp, ?_, ?_, rfl⟩
    · refine { hstored with refs := hstored.refs.trans (List.perm_iff_count.mpr fun a => ?_) }
      simp only [State.refs, pointers, List.filterMap_append, List.filterMap_cons,
        List.filterMap_nil, List.count_append, List.count_cons, List.count_nil]
      omega
    · exact forall_concat houtbound rfl
  · rw [if_neg hqos]
    cases interrupted with
    | true =>
        rw [if_pos rfl]
        refine ⟨_, _, _, rfl, by simp, by simp, ?_, houtbound, rfl⟩
        refine { hstored with refs := hstored.refs.trans (List.perm_iff_count.mpr fun a => ?_) }
        simp only [State.refs, List.map_append, List.map_cons, List.map_nil,
          List.count_append, List.count_cons, List.count_nil]
        omega
    | false =>
        rw [if_neg Bool.false_ne_true]
        exact ⟨_, _, _, rfl, by simp, hpayload, hledger, houtbound, rfl⟩

theorem publish
    (h : Owned s leaked)
    (qos : Nat) (msgid : MsgId) (MQTTVersion socket : Nat) (hasPayload interrupted : Bool) :
    ∃ s', s.publish qos msgid MQTTVersion socket hasPayload interrupted = some s' ∧
      Owned s' leaked ∧ s'.inboundMsgs = s.inboundMsgs := by
  have hpayload : ∃ payload store,
      (if hasPayload then (Pointer.block s.store.malloc.1, s.store.malloc.2)
        else (.null, s.store)) = (payload, store) ∧ payload ≠ .packet ∧
      Ledger store (payload.blocks ++ []) s.refs none leaked := by
    cases hasPayload with
    | true => exact ⟨_, _, rfl, by simp, h.ledger.malloc⟩
    | false => exact ⟨_, _, rfl, by simp, h.ledger⟩
  obtain ⟨payload, store, heq, hne, hledger⟩ := hpayload
  obtain ⟨topic', payload', s', hstarted, htopic', hpayload', hledger', houtbound, hinbound⟩ :=
    @startPublish { s with store := store.malloc.2 } _ _ _ hledger.malloc hne h.outbound qos msgid
      MQTTVersion socket interrupted
  obtain ⟨st₁, hfree₁, h₁⟩ := hledger'.free htopic'
  obtain ⟨st₂, hfree₂, h₂⟩ := h₁.free hpayload'
  refine ⟨{ s' with store := st₂ }, ?_, ⟨h₂, houtbound, ?_⟩, hinbound⟩
  · unfold State.publish
    simp only [heq, hstarted, hfree₁, hfree₂, Option.bind_eq_bind, Option.bind_some]
    rfl
  · rw [hinbound]
    exact h.inbound

/-- The publication of the message that was received before is given up. -/
theorem replaced
    {store : Store} {p : Nat} {msgid : MsgId} {msg : Messages}
    (hfound : findMsg s.inboundMsgs msgid = some msg)
    (hledger : Ledger store [] (p :: s.refs) (some p) leaked)
    (hnew : p ∉ s.refs) :
    ∃ store', store.removePublication msg.publish = some store' ∧
      Ledger store' [] (p :: (pointers s.outboundMsgs ++
        (pointers (removeMsg s.inboundMsgs msgid) ++ s.pending_writes.map (·.2)))) (some p)
        leaked := by
  have hpointers := pointers_removeMsg hfound
  cases hpublish : msg.publish with
  | none =>
      rw [hpublish] at hpointers
      refine ⟨store, rfl, { hledger with refs := hledger.refs.trans (List.Perm.cons _ ?_) }⟩
      exact (hpointers.append_right _).append_left _
  | some addr =>
      rw [hpublish] at hpointers
      have hrefs : s.refs.Perm (addr :: (pointers s.outboundMsgs ++
          (pointers (removeMsg s.inboundMsgs msgid) ++ s.pending_writes.map (·.2)))) :=
        ((hpointers.append_right _).append_left _).trans List.perm_middle
      refine hledger.removePublication ((hrefs.cons p).trans (List.Perm.swap _ _ _)) ?_
      rintro heq
      obtain rfl := Option.some.inj heq
      exact hnew (hrefs.mem_iff.mpr List.mem_cons_self)

/-- A publication is passed on although it is still on the list, and is then taken off. -/
theorem passedOn
    {store : Store} {p : Publications} {addr topic : Nat} {refs : List Nat}
    (hledger : Ledger store [] (addr :: refs) (some addr) leaked)
    (hp : p ∈ store.publications)
    (haddr : p.addr = addr)
    (htopic : p.topic = .block topic)
    (hpayload : p.payload = .packet) :
    ∃ st st', store.processPublication p.topic p.payload true = some st ∧
      st.listRemove addr = some st' ∧ Ledger st' [] refs none leaked := by
  subst haddr
  have htaken : Ledger
      { store with publications := store.publications.eraseP (·.addr = p.addr) }
      (p.blocks ++ []) refs none leaked :=
    hledger.take hp (List.Perm.refl _) fun a ha => by simp [ha.symm]
  have hheld : Ledger { store with publications := store.publications.eraseP (·.addr = p.addr) }
      (topic :: (p.addr :: [])) refs none leaked := by
    refine { htaken with blocks := htaken.blocks.trans (List.perm_iff_count.mpr fun a => ?_) }
    simp only [Publications.blocks, htopic, hpayload, Pointer.blocks, List.count_append,
      List.count_cons, List.count_nil]
    omega
  have hmem : topic ∈ store.allocated := hheld.block_mem
  have hprocess :=
    Ledger.processPublication_copies hmem (show store.read .packet = some () from rfl)
  obtain ⟨st', hremove, hledger'⟩ := @Ledger.unlink
    { store with
      allocated := store.fresh :: store.allocated
      fresh := store.fresh + 1
      passed := store.passed ++ [.block topic, .block store.fresh] } _ _ _ _ _ hp hheld.copied
  exact ⟨_, st', by rw [htopic, hpayload]; exact hprocess, hremove, hledger'⟩

/-- A publication that has just been stored, which may be given a payload of its own. -/
theorem filled
    {store : Store} {p : Nat} {refs : List Nat}
    (hledger : Ledger store [] (p :: refs) (some p) leaked) :
    ∃ q topic, store.publication (some p) = some q ∧ q ∈ store.publications ∧ q.addr = p ∧
      q.topic = .block topic ∧ q.payload = .packet ∧
      Ledger (store.malloc.2.setPublication { q with payload := .block store.malloc.1 }) []
        (p :: refs) none leaked := by
  obtain ⟨q, hq, rfl, hfound⟩ := hledger.publication List.mem_cons_self
  obtain ⟨-, ⟨topic, htopic⟩, hpayload⟩ := hledger.kept q hq
  have hpacket := hpayload.mpr rfl
  exact ⟨q, topic, hfound, hq, rfl, htopic, hpacket, hledger.malloc.setPublication hq hpacket⟩

/-- The message stands where the one of the same id stood. -/
theorem replacing
    (h : Owned s leaked)
    {store : Store} {p : Nat} {msgid : MsgId} {msg m : Messages}
    (hfound : findMsg s.inboundMsgs msgid = some msg)
    (hpublish : m.publish = some p)
    (hledger : Ledger store [] (p :: (pointers s.outboundMsgs ++
      (pointers (removeMsg s.inboundMsgs msgid) ++ s.pending_writes.map (·.2)))) none leaked) :
    Owned { s with store, inboundMsgs := replaceMsg msgid m s.inboundMsgs } leaked := by
  have hpointers := (pointers_replaceMsg hfound m).symm
  rw [hpublish] at hpointers
  refine ⟨{ hledger with refs := hledger.refs.trans (List.perm_middle.symm.trans ?_) },
    h.outbound, ?_⟩
  · exact (hpointers.append_right _).append_left _
  · exact forall_replaceMsg hfound h.inbound fun _ => by rw [hpublish]; rfl

/-- The message is the last of the list. -/
theorem appending
    (h : Owned s leaked)
    {store : Store} {m : Messages}
    (hpublish : m.MQTTVersion < 5 → m.publish.isSome)
    (hledger : Ledger store [] (m.publish.toList ++ s.refs) none leaked) :
    Owned { s with store, inboundMsgs := s.inboundMsgs ++ [m] } leaked := by
  refine ⟨{ hledger with refs := hledger.refs.trans (List.perm_iff_count.mpr fun a => ?_) },
    h.outbound, forall_concat h.inbound hpublish⟩
  simp only [State.refs, pointers_append, List.count_append]
  omega

theorem handlePublishes
    (h : Owned s leaked)
    (qos : Nat) (msgid : MsgId) (MQTTVersion : Nat) (clear : Bool) :
    ∃ s', s.handlePublishes qos msgid MQTTVersion clear = some s' ∧ Owned s' leaked ∧
      ((qos = 2 → MQTTVersion ≥ 5 → findMsg s.inboundMsgs msgid = none) →
        Drained s.inboundMsgs → Drained s'.inboundMsgs) := by
  have hmalloc := h.ledger.malloc
  unfold State.handlePublishes
  dsimp only
  by_cases hpass : qos = 0 ∨ clear = true ∧ qos = 1
  · have hprocess := Ledger.processPublication_copies hmalloc.block_mem
      (show s.store.malloc.2.read .packet = some () from rfl)
    rw [if_pos hpass, hprocess]
    exact ⟨_, rfl, ⟨hmalloc.copied, h.outbound, h.inbound⟩, fun _ hdrained => hdrained⟩
  rw [if_neg hpass]
  by_cases hrefused : (!clear) = true ∨ qos ≠ 2
  · obtain ⟨store, hfree, hledger⟩ := @Ledger.free _ _ _ _ _ (.block s.store.fresh) hmalloc
      (by simp)
    have hfree' : s.store.malloc.2.free (.block s.store.malloc.1) = some store := hfree
    rw [if_pos hrefused, hfree']
    exact ⟨_, rfl, ⟨hledger, h.outbound, h.inbound⟩, fun _ hdrained => hdrained⟩
  rw [if_neg hrefused]
  have hqos : qos = 2 := by
    by_contra hne
    exact hrefused (.inr hne)
  obtain ⟨hstored, haddr, hnew, hpublication⟩ :=
    @Ledger.storePublication _ _ _ _ _ .packet hmalloc
  rw [if_pos rfl] at hstored
  rw [haddr]
  cases hfound : findMsg s.inboundMsgs msgid with
  | some msg =>
      obtain ⟨store, hremove, hledger⟩ := replaced hfound hstored hnew
      obtain ⟨q, topic, hq, -, -, -, hpacket, hfilled⟩ := filled hledger
      have hread : store.malloc.2.read q.payload = some () := by
        rw [hpacket]
        rfl
      simp only [hremove, hq, hread, Option.bind_eq_bind, Option.bind_some, Option.pure_def,
        Option.isNone_some, Bool.false_eq_true, and_false, if_false]
      refine ⟨_, rfl, h.replacing hfound rfl hfilled, fun hnone hdrained => ?_⟩
      exact forall_replaceMsg hfound hdrained fun hversion =>
        absurd (hnone hqos hversion) (by simp)
  | none =>
      obtain ⟨q, topic, hq, hmem, hqaddr, htopic, hpacket, hfilled⟩ := filled hstored
      simp only [hq, Option.bind_eq_bind, Option.bind_some, Option.pure_def, Option.isNone_none,
        and_true]
      by_cases hversion : MQTTVersion ≥ 5
      · obtain ⟨st, st', hprocess, hremove, hledger⟩ := passedOn hstored hmem hqaddr htopic hpacket
        simp only [if_pos hversion, hprocess, hremove, Option.bind_some, List.dropLast_concat]
        refine ⟨_, rfl, h.appending (fun hlow => ?_) hledger, fun _ hdrained => ?_⟩
        · exact absurd hlow (not_lt.mpr hversion)
        · exact forall_concat hdrained fun _ => rfl
      · have hread : (s.store.malloc.2.storePublication (.block s.store.malloc.1)
            .packet).2.malloc.2.read q.payload = some () := by
          rw [hpacket]
          rfl
        simp only [if_neg hversion, hread, Option.bind_some]
        refine ⟨_, rfl, h.appending (fun _ => rfl) hfilled, fun _ hdrained => ?_⟩
        exact forall_concat hdrained fun hhigh => absurd hhigh hversion

theorem handlePubacks
    (h : Owned s leaked)
    (msgid : MsgId) :
    ∃ s', s.handlePubacks msgid = some s' ∧ Owned s' leaked ∧ s'.inboundMsgs = s.inboundMsgs := by
  unfold State.handlePubacks
  split
  next m hfound =>
    split
    · exact ⟨s, rfl, h, rfl⟩
    · exact h.acknowledged hfound
  next => exact ⟨s, rfl, h, rfl⟩

theorem handlePubrecs
    (h : Owned s leaked)
    (msgid : MsgId) (error : Bool) :
    ∃ s', s.handlePubrecs msgid error = some s' ∧ Owned s' leaked ∧
      s'.inboundMsgs = s.inboundMsgs := by
  unfold State.handlePubrecs
  split
  next m hfound =>
    split
    · exact ⟨s, rfl, h, rfl⟩
    · split
      · exact h.acknowledged hfound
      · have hmem : m ∈ s.outboundMsgs := List.mem_of_find?_eq_some hfound
        -- the message points to its publication as before
        have hpointers : (pointers s.outboundMsgs).Perm (pointers (replaceMsg msgid
            { m with nextMessageType := some .pubcomp } s.outboundMsgs)) := by
          have hnew := pointers_replaceMsg hfound { m with nextMessageType := some .pubcomp }
          exact (pointers_removeMsg hfound).trans hnew.symm
        refine ⟨_, rfl, ⟨?_, ?_, h.inbound⟩, rfl⟩
        · exact { h.ledger with refs := h.ledger.refs.trans (hpointers.append_right _) }
        · exact forall_replaceMsg hfound h.outbound (h.outbound m hmem)
  next => exact ⟨s, rfl, h, rfl⟩

theorem handlePubcomps
    (h : Owned s leaked)
    (msgid : MsgId) :
    ∃ s', s.handlePubcomps msgid = some s' ∧ Owned s' leaked ∧ s'.inboundMsgs = s.inboundMsgs := by
  unfold State.handlePubcomps
  split
  next m hfound =>
    split
    · exact ⟨s, rfl, h, rfl⟩
    · exact h.acknowledged hfound
  next => exact ⟨s, rfl, h, rfl⟩

/-- The publication of a message that goes is passed on before, or its blocks are leaked. -/
theorem released
    {store : Store} {addr : Nat} {refs : List Nat}
    (hledger : Ledger store [] (addr :: refs) none leaked) :
    ∃ p topic, store.publication (some addr) = some p ∧ p.topic = .block topic ∧
      p.payload ≠ .packet ∧
      (∃ st st', store.processPublication p.topic p.payload false = some st ∧
        st.listRemove addr = some st' ∧ Ledger st' [] refs none leaked) ∧
      ∃ st', Store.listRemove addr
          { store with leaked := store.leaked ++ (p.topic.blocks ++ p.payload.blocks) } = some st' ∧
        Ledger st' [] refs none (leaked ++ (p.topic.blocks ++ p.payload.blocks)) := by
  obtain ⟨p, hp, rfl, hfound⟩ := hledger.publication List.mem_cons_self
  obtain ⟨-, ⟨topic, htopic⟩, hpayload⟩ := hledger.kept p hp
  have hfilled : p.payload ≠ .packet := fun hpacket => by cases hpayload.mp hpacket
  have htaken := hledger.take hp (List.Perm.refl _) fun _ _ => Iff.rfl
  have hheld : Ledger { store with publications := store.publications.eraseP (·.addr = p.addr) }
      (p.topic.blocks ++ (p.payload.blocks ++ [p.addr])) refs none leaked := by
    refine { htaken with blocks := htaken.blocks.trans (List.perm_iff_count.mpr fun a => ?_) }
    simp only [Publications.blocks, List.count_append, List.count_cons, List.count_nil]
    omega
  refine ⟨p, topic, hfound, htopic, hfilled, ?_, ?_⟩
  · have hmem : topic ∈ store.allocated := by
      rw [htopic] at hheld
      exact hheld.block_mem
    obtain ⟨st', hremove, hledger'⟩ := @Ledger.unlink
      { store with passed := store.passed ++ [p.topic, p.payload] } _ _ _ _ _ hp
      (hheld.pass (by rw [htopic]; simp) hfilled)
    refine ⟨_, st', ?_, hremove, hledger'⟩
    rw [htopic]
    exact Ledger.processPublication_passes hmem
  · have hleak : Ledger
        { store with publications := store.publications.eraseP (·.addr = p.addr) }
        ((p.topic.blocks ++ p.payload.blocks) ++ [p.addr]) refs none leaked := by
      rw [List.append_assoc]
      exact hheld
    exact @Ledger.unlink
      { store with leaked := store.leaked ++ (p.topic.blocks ++ p.payload.blocks) } _ _ _ _ _ hp
      hleak.leak

theorem handlePubrels
    (h : Owned s leaked)
    (msgid : MsgId) (clear : Bool) :
    ∃ s' leaked', s.handlePubrels msgid clear = some s' ∧ Owned s' leaked' ∧
      (Drained s.inboundMsgs → leaked' = leaked ∧ Drained s'.inboundMsgs) := by
  unfold State.handlePubrels
  split
  next => exact ⟨s, leaked, rfl, h, fun hdrained => ⟨rfl, hdrained⟩⟩
  next m hfound =>
    split
    · exact ⟨s, leaked, rfl, h, fun hdrained => ⟨rfl, hdrained⟩⟩
    have hmem : m ∈ s.inboundMsgs := List.mem_of_find?_eq_some hfound
    have hrest : ∀ t ∈ removeMsg s.inboundMsgs msgid, t ∈ s.inboundMsgs := fun t ht =>
      List.mem_of_mem_eraseP ht
    have hpointers := pointers_removeMsg hfound
    have hdrained : Drained s.inboundMsgs → Drained (removeMsg s.inboundMsgs msgid) :=
      fun hdrained t ht => hdrained t (hrest t ht)
    cases hpublish : m.publish with
    | none =>
        rw [hpublish] at hpointers
        have hhigh : m.MQTTVersion ≥ 5 := by
          by_contra hlow
          exact absurd (h.inbound m hmem (not_le.mp hlow)) (by simp [hpublish])
        have hrefs := (hpointers.append_right (s.pending_writes.map (·.2))).append_left
          (pointers s.outboundMsgs)
        have hledger : Ledger s.store ([] ++ []) _ none leaked :=
          { h.ledger with refs := h.ledger.refs.trans hrefs }
        simp only [if_pos hhigh, Option.bind_eq_bind, Option.bind_some, Option.pure_def]
        refine ⟨_, leaked ++ [], rfl, ⟨hledger.leak, h.outbound, ?_⟩, fun hall => ?_⟩
        · exact fun t ht => h.inbound t (hrest t ht)
        · exact ⟨List.append_nil _, hdrained hall⟩
    | some addr =>
        rw [hpublish] at hpointers
        have hrefs : s.refs.Perm (addr :: (pointers s.outboundMsgs ++
            (pointers (removeMsg s.inboundMsgs msgid) ++ s.pending_writes.map (·.2)))) :=
          ((hpointers.append_right _).append_left _).trans List.perm_middle
        have hledger : Ledger s.store [] _ none leaked :=
          { h.ledger with refs := h.ledger.refs.trans hrefs }
        obtain ⟨p, topic, hfound', -, -, ⟨st, st', hprocess, hremove, hpassed⟩,
          st'', hremove', hleaked⟩ := released hledger
        simp only [hfound', Option.map_some, Option.bind_eq_bind, Option.bind_some,
          Option.pure_def]
        by_cases hhigh : m.MQTTVersion ≥ 5
        · simp only [if_pos hhigh, hremove', Option.bind_some]
          refine ⟨_, _, rfl, ⟨hleaked, h.outbound, ?_⟩, fun hall => ?_⟩
          · exact fun t ht => h.inbound t (hrest t ht)
          · cases hpublish.symm.trans (hall m hmem hhigh)
        · simp only [if_neg hhigh, hprocess, hremove, Option.bind_some]
          refine ⟨_, _, rfl, ⟨hpassed, h.outbound, ?_⟩, fun hall => ⟨rfl, hdrained hall⟩⟩
          exact fun t ht => h.inbound t (hrest t ht)

/-- A list of messages is emptied with their publications. -/
theorem emptyMessageList
    {store : Store} {msgs : List Messages} {refs : List Nat}
    (hledger : Ledger store [] (pointers msgs ++ refs) none leaked) :
    ∃ store', State.emptyMessageList msgs store = some store' ∧
      Ledger store' [] refs none leaked := by
  unfold State.emptyMessageList
  induction msgs generalizing store with
  | nil => exact ⟨store, rfl, hledger⟩
  | cons m msgs ih =>
      rw [List.foldlM_cons]
      cases hpublish : m.publish with
      | none =>
          rw [pointers, List.filterMap_cons_none hpublish] at hledger
          exact ih hledger
      | some addr =>
          rw [pointers, List.filterMap_cons_some hpublish] at hledger
          obtain ⟨store', hremove, hledger'⟩ := hledger.removePublication (List.Perm.refl _)
            (by simp)
          rw [hremove]
          exact ih hledger'

theorem cleanSession
    (h : Owned s leaked) :
    ∃ s', s.cleanSession = some s' ∧ Owned s' leaked ∧ s'.inboundMsgs = [] := by
  have hrefs : s.refs.Perm (pointers s.inboundMsgs ++
      (pointers s.outboundMsgs ++ s.pending_writes.map (·.2))) := by
    refine List.perm_iff_count.mpr fun a => ?_
    simp only [State.refs, List.count_append]
    omega
  obtain ⟨store, hinbound, hledger⟩ := emptyMessageList
    ({ h.ledger with refs := h.ledger.refs.trans hrefs } : Ledger s.store [] _ none leaked)
  obtain ⟨store', houtbound, hledger'⟩ := emptyMessageList hledger
  refine ⟨{ s with store := store', inboundMsgs := [], outboundMsgs := [] }, ?_,
    ⟨hledger', ?_, ?_⟩, rfl⟩
  · unfold State.cleanSession
    rw [hinbound, Option.bind_eq_bind, Option.bind_some, houtbound]
    rfl
  · exact fun _ hm => absurd hm List.not_mem_nil
  · exact fun _ hm => absurd hm List.not_mem_nil

theorem checkLoop
    (clear : List Nat)
    {store : Store} {writes : List (Nat × Nat)} {refs : List Nat}
    (hledger : Ledger store [] (writes.map (·.2) ++ refs) none leaked) :
    ∃ store' rest, State.checkLoop clear writes store = some (store', rest) ∧
      Ledger store' [] (rest.map (·.2) ++ refs) none leaked := by
  induction writes generalizing store refs with
  | nil => exact ⟨store, [], rfl, hledger⟩
  | cons write writes ih =>
      obtain ⟨socket, p⟩ := write
      unfold State.checkLoop
      by_cases hclear : socket ∈ clear
      · obtain ⟨store', hremove, hledger'⟩ := hledger.removePublication (List.Perm.refl _) (by simp)
        rw [if_pos hclear, hremove]
        exact ih hledger'
      · have hlater : Ledger store [] (writes.map (·.2) ++ (p :: refs)) none leaked :=
          { hledger with refs := hledger.refs.trans List.perm_middle.symm }
        obtain ⟨store', rest, hloop, hledger'⟩ := ih hlater
        rw [if_neg hclear, hloop]
        refine ⟨store', (socket, p) :: rest, rfl, ?_⟩
        exact { hledger' with refs := hledger'.refs.trans List.perm_middle }

theorem checkPendingWrites
    (h : Owned s leaked)
    (clear : List Nat) :
    ∃ s', s.checkPendingWrites clear = some s' ∧ Owned s' leaked ∧
      s'.inboundMsgs = s.inboundMsgs := by
  have hrefs : s.refs.Perm (s.pending_writes.map (·.2) ++
      (pointers s.outboundMsgs ++ pointers s.inboundMsgs)) := by
    refine List.perm_iff_count.mpr fun a => ?_
    simp only [State.refs, List.count_append]
    omega
  obtain ⟨store, rest, hloop, hledger⟩ := checkLoop clear
    ({ h.ledger with refs := h.ledger.refs.trans hrefs } : Ledger s.store [] _ none leaked)
  refine ⟨{ s with store, pending_writes := rest }, ?_, ⟨?_, h.outbound, h.inbound⟩, rfl⟩
  · unfold State.checkPendingWrites
    rw [hloop]
    rfl
  · refine { hledger with refs := hledger.refs.trans (List.perm_iff_count.mpr fun a => ?_) }
    simp only [State.refs, List.count_append]
    omega

/-- What a message that is sent again points to is there. -/
theorem retry
    (h : Owned s leaked)
    (i : Nat) :
    s.retry i = some s := by
  unfold State.retry
  split
  next => rfl
  next m hfound =>
    split
    · have hmem : m ∈ s.outboundMsgs := List.mem_of_getElem? hfound
      obtain ⟨addr, haddr⟩ := Option.isSome_iff_exists.mp (h.outbound m hmem)
      have hrefs : addr ∈ s.refs :=
        List.mem_append_left _ (List.mem_filterMap.mpr ⟨m, hmem, haddr⟩)
      obtain ⟨p, hp, rfl, hpublication⟩ := h.ledger.publication hrefs
      simp [haddr, hpublication, h.ledger.send hp]
    · rfl

end Owned

/-- A PUBLISH of QoS 2 and of MQTT 5 comes again while its exchange is open. -/
def Again (x : Lib.Transition State MemoryEvent) : Prop :=
  ∃ msgid MQTTVersion clear, x.event = .handlePublishes 2 msgid MQTTVersion clear ∧
    MQTTVersion ≥ 5 ∧ findMsg x.pre.inboundMsgs msgid ≠ none

/--
Each block that is allocated belongs to one publication, or was passed on once, or is
leaked; each publication of the list has one pointer to it.
-/
structure Accounted (s : State) : Prop where
  once : s.store.allocated.Nodup
  blocks : s.store.allocated.Perm (s.store.publications.flatMap (·.blocks) ++
    (s.store.passed.flatMap (·.blocks) ++ s.store.leaked))
  pointers : (s.store.publications.map (·.addr)).Perm s.refs
  kept : ∀ p ∈ s.store.publications, p.refcount = 1 ∧ p.payload ≠ .packet
  passed : Pointer.packet ∉ s.store.passed

namespace Owned

variable {s : State} {leaked : List Nat}

theorem accounted
    (h : Owned s leaked) :
    Accounted s := by
  refine ⟨h.ledger.nodup, ?_, h.ledger.refs, fun p hp => ?_, h.ledger.passed⟩
  · have hblocks := h.ledger.blocks
    rwa [List.append_nil] at hblocks
  · obtain ⟨hcount, -, hpayload⟩ := h.ledger.kept p hp
    exact ⟨hcount, fun hpacket => by cases hpayload.mp hpacket⟩

/-- No event is a fault, and only a PUBLISH that comes again makes a leak possible. -/
theorem next
    (h : Owned s leaked)
    (e : MemoryEvent) :
    ∃ s' leaked', s.next e = some s' ∧ Owned s' leaked' ∧
      (¬Again ⟨s, e, s'⟩ → Drained s.inboundMsgs →
        leaked' = leaked ∧ Drained s'.inboundMsgs) := by
  have hsame : ∀ {s' : State}, s'.inboundMsgs = s.inboundMsgs → ¬Again ⟨s, e, s'⟩ →
      Drained s.inboundMsgs → leaked = leaked ∧ Drained s'.inboundMsgs :=
    fun hinbound _ hdrained => ⟨rfl, hinbound ▸ hdrained⟩
  cases e with
  | publish qos msgid MQTTVersion socket hasPayload interrupted =>
      obtain ⟨s', hnext, howned, hinbound⟩ :=
        h.publish qos msgid MQTTVersion socket hasPayload interrupted
      exact ⟨s', leaked, hnext, howned, hsame hinbound⟩
  | handlePublishes qos msgid MQTTVersion clear =>
      obtain ⟨s', hnext, howned, hdrained⟩ := h.handlePublishes qos msgid MQTTVersion clear
      refine ⟨s', leaked, hnext, howned, fun hagain hall => ⟨rfl, hdrained ?_ hall⟩⟩
      rintro rfl hversion
      by_contra hfound
      exact hagain ⟨msgid, MQTTVersion, clear, rfl, hversion, hfound⟩
  | handlePubacks msgid =>
      obtain ⟨s', hnext, howned, hinbound⟩ := h.handlePubacks msgid
      exact ⟨s', leaked, hnext, howned, hsame hinbound⟩
  | handlePubrecs msgid error =>
      obtain ⟨s', hnext, howned, hinbound⟩ := h.handlePubrecs msgid error
      exact ⟨s', leaked, hnext, howned, hsame hinbound⟩
  | handlePubrels msgid clear =>
      obtain ⟨s', leaked', hnext, howned, hdrained⟩ := h.handlePubrels msgid clear
      exact ⟨s', leaked', hnext, howned, fun _ hall => hdrained hall⟩
  | handlePubcomps msgid =>
      obtain ⟨s', hnext, howned, hinbound⟩ := h.handlePubcomps msgid
      exact ⟨s', leaked, hnext, howned, hsame hinbound⟩
  | retry i => exact ⟨s, leaked, h.retry i, h, hsame rfl⟩
  | cleanSession =>
      obtain ⟨s', hnext, howned, hinbound⟩ := h.cleanSession
      refine ⟨s', leaked, hnext, howned, fun _ _ => ⟨rfl, ?_⟩⟩
      rw [hinbound]
      exact fun _ hm => absurd hm List.not_mem_nil
  | checkPendingWrites clear =>
      obtain ⟨s', hnext, howned, hinbound⟩ := h.checkPendingWrites clear
      exact ⟨s', leaked, hnext, howned, hsame hinbound⟩

theorem initial :
    Owned .initial [] := by
  refine ⟨⟨List.nodup_nil, ?_, List.Perm.refl _, List.Perm.refl _, ?_, List.not_mem_nil, rfl⟩,
    ?_, ?_⟩
  all_goals exact fun _ hm => absurd hm List.not_mem_nil

end Owned

open Lib

theorem runs_owned
    {s s' : State} {tr : List (Transition State MemoryEvent)} {leaked : List Nat}
    (hrun : Runs MemoryStep s tr s')
    (h : Owned s leaked) :
    ∃ leaked', Owned s' leaked' ∧ ((∀ x ∈ tr, ¬Again x) → Drained s.inboundMsgs →
      leaked' = leaked) := by
  induction hrun generalizing leaked with
  | nil s => exact ⟨leaked, h, fun _ _ => rfl⟩
  | @cons s u s' e tr hstep _ ih =>
      obtain ⟨t, leaked', hnext, howned, hquiet⟩ := h.next e
      obtain rfl : t = u := Option.some.inj (hnext.symm.trans hstep)
      obtain ⟨leaked'', hlast, hrest⟩ := ih howned
      refine ⟨leaked'', hlast, fun hnone hdrained => ?_⟩
      obtain ⟨heq, hdrained'⟩ := hquiet (hnone _ List.mem_cons_self) hdrained
      rw [hrest (fun x hx => hnone x (List.mem_cons_of_mem _ hx)) hdrained', heq]

theorem runs_of_foldlM
    {es : List MemoryEvent} {s s' : State}
    (hend : es.foldlM State.next s = some s') :
    ∃ tr, Runs MemoryStep s tr s' := by
  induction es generalizing s with
  | nil => exact ⟨[], Option.some.inj hend ▸ .nil s⟩
  | cons e es ih =>
      rw [List.foldlM_cons, Option.bind_eq_bind, Option.bind_eq_some_iff] at hend
      obtain ⟨u, hnext, hrest⟩ := hend
      obtain ⟨tr, hrun⟩ := ih hrest
      exact ⟨_, .cons hnext hrun⟩

/--
In every run no access is a fault, whatever comes next, and no block is freed twice,
passed on twice or lost, but that of an exchange of MQTT 5 whose PUBLISH came again.
-/
theorem publications_freed_once
    {s : State} {tr : List (Transition State MemoryEvent)}
    (hrun : Runs MemoryStep .initial tr s) :
    Accounted s ∧ (∀ e, ∃ s', MemoryStep s e s') ∧
      ((∀ x ∈ tr, ¬Again x) → s.store.leaked = []) := by
  obtain ⟨leaked, howned, hquiet⟩ := runs_owned hrun Owned.initial
  refine ⟨howned.accounted, fun e => ?_, fun hnone => ?_⟩
  · obtain ⟨s', -, hnext, -⟩ := howned.next e
    exact ⟨s', hnext⟩
  · rw [howned.ledger.leaked_eq]
    exact hquiet hnone fun _ hm => absurd hm List.not_mem_nil

/-- Two publications go out and one of QoS 2 comes in, whose PUBLISH is repeated. -/
def repeated : List MemoryEvent :=
  [.publish 1 1 5 3 true false, .publish 0 0 5 3 true true, .handlePublishes 2 7 5 true,
    .handlePublishes 2 7 5 true, .handlePubrels 7 true, .handlePubacks 1, .checkPendingWrites [3]]

/-- The topic and the payload of the second PUBLISH are lost; nothing else is left but what
was passed on. -/
theorem publications_freed_once_repeated :
    ∃ s : State, s.store.publications = [] ∧ s.store.passed.length = 2 ∧
      s.store.leaked.length = 2 ∧ s.store.allocated.length = 4 ∧ Accounted s := by
  have hend : repeated.foldlM State.next .initial =
      some ⟨⟨[11, 9, 8, 6], 12, [], [.block 6, .block 8], [9, 11]⟩, [], [], []⟩ := rfl
  obtain ⟨tr, hrun⟩ := runs_of_foldlM hend
  exact ⟨_, rfl, rfl, rfl, rfl, (publications_freed_once hrun).1⟩

end PublicationMemory
end PahoMqtt
