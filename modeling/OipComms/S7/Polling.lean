import OipComms.S7.RoundTrip

/-!
# The polling thread

What the polling thread may do to a connection while the other threads use it: a reading of a block
changes the block's image and the state of the link, and neither the tags nor the memory of the
controller.
-/

namespace OipComms.S7

open Slice

/-- What the polling thread may make of a connection: anything but its tags and the memory behind
it. -/
def S7Plc.polled (plc seen : S7Plc Controller) : S7Plc Controller :=
  { seen with
    tags := plc.tags
    identifier := plc.identifier
    plcHostName := plc.plcHostName
    sock := { seen.sock with memory := plc.sock.memory } }

/-- What the polling thread leaves as it is. -/
structure S7Plc.Polls (plc plc' : S7Plc Controller) : Prop where
  tags : plc'.tags = plc.tags
  identifier : plc'.identifier = plc.identifier
  plcHostName : plc'.plcHostName = plc.plcHostName
  memory : plc'.sock.memory = plc.sock.memory

namespace S7Plc.Polls

theorem refl (plc : S7Plc Controller) : plc.Polls plc := ⟨rfl, rfl, rfl, rfl⟩

theorem trans {a b c : S7Plc Controller} (h : a.Polls b) (h' : b.Polls c) : a.Polls c :=
  ⟨h'.tags.trans h.tags, h'.identifier.trans h.identifier, h'.plcHostName.trans h.plcHostName,
    h'.memory.trans h.memory⟩

/-- What a poll leaves is what the polling thread has seen. -/
theorem eq_polled {plc plc' : S7Plc Controller} (h : plc.Polls plc') : plc.polled plc' = plc' := by
  obtain ⟨htags, hid, hhost, hmemory⟩ := h
  rw [S7Plc.polled, ← htags, ← hid, ← hhost, ← hmemory]

/-- An image that is stored is a poll. -/
theorem setBlock (plc : S7Plc Controller) (area : Area) (mem : S7MemoryBlock) :
    plc.Polls (plc.setBlock area mem) :=
  ⟨S7Plc.setBlock_tags _ _ _, S7Plc.setBlock_identifier _ _ _, S7Plc.setBlock_plcHostName _ _ _, by
    rw [S7Plc.setBlock_sock]⟩

end S7Plc.Polls

/-- A receive leaves the memory. -/
theorem recv_memory (c : Controller) (n : Nat) : (Controller.net.recv c n).2.memory = c.memory := by
  show (Controller.recv c n).2.memory = c.memory
  rw [Controller.recv]
  split <;> rfl

/-- A frame built as a read changes no memory, whatever its address. -/
theorem carryOut_readRequest (c : Controller) (area : Area) (start quantity : Int) :
    (c.carryOut (readRequest area start quantity)).1 = c.memory := by
  have hfunction : field (readRequest area start quantity) 17 1 = 4 := ofBE_singleton 4
  rw [Controller.carryOut]
  cases hparse : parseRequest (readRequest area start quantity) with
  | none => rfl
  | some r =>
    obtain ⟨_, _, _, rfl⟩ := parseRequest_read hparse hfunction
    rfl

/-- An exchange that leaves the memory is a poll. -/
theorem tcpExchange_polls {plc : S7Plc Controller} {request : List UInt8}
    (h : (plc.sock.carryOut request).1 = plc.sock.memory) :
    plc.Polls (plc.tcpExchange Controller.net request).2 := by
  have hsend : (Controller.net.send plc.sock request).2.memory = plc.sock.memory := by
    show (Controller.send plc.sock request).2.memory = plc.sock.memory
    rw [Controller.send]
    cases plc.sock.next with
    | down => rfl
    | lost arrived => exact h
    | up segments => exact h
  have hkeeps : Controller.net.Keeps plc.Polls :=
    { close := fun h => h.trans ⟨rfl, rfl, rfl, rfl⟩
      recv := fun n h => h.trans ⟨rfl, rfl, rfl, recv_memory _ n⟩
      store := fun _ h => h.trans ⟨rfl, rfl, rfl, rfl⟩ }
  exact (tcpExchange_keeps hkeeps request ⟨rfl, rfl, rfl, hsend⟩).2

/-- A chunk that is read is a poll. -/
theorem s7ReadChunk_polls (plc : S7Plc Controller) (area : Area) (start quantity : Int) :
    plc.Polls (plc.s7ReadChunk Controller.net area start quantity) := by
  have hexchange := tcpExchange_polls (carryOut_readRequest plc.sock area start quantity)
  rw [S7Plc.s7ReadChunk]
  generalize plc.tcpExchange Controller.net (readRequest area start quantity) = answer at hexchange
  obtain ⟨ret, plc'⟩ := answer
  simp only
  split
  · exact hexchange.trans (S7Plc.Polls.setBlock _ _ _)
  · exact hexchange

/-- The chunks of a block are a poll. -/
theorem readChunks_polls {area : Area} {start quantity : Int} {fuel : Nat} {i n : Int}
    {plc plc' : S7Plc Controller}
    (h : S7Plc.readChunks Controller.net area start quantity fuel i n plc = some plc') :
    plc.Polls plc' := by
  induction fuel generalizing i n plc with
  | zero =>
    rw [S7Plc.readChunks] at h
    split at h
    · obtain rfl := Option.some.inj h
      exact S7Plc.Polls.refl plc
    · cases h
  | succ fuel ih =>
    rw [S7Plc.readChunks] at h
    split at h
    · obtain rfl := Option.some.inj h
      exact S7Plc.Polls.refl plc
    · exact (s7ReadChunk_polls plc area i n).trans (ih h)

/-- A reading of a block is one of the things the polling thread may do in a history. -/
theorem s7ReadBlock_polled {fuel : Nat} {area : Area} {plc plc' : S7Plc Controller}
    (h : plc.s7ReadBlock Controller.net fuel area = some plc') : plc.polled plc' = plc' := by
  apply S7Plc.Polls.eq_polled
  rw [S7Plc.s7ReadBlock] at h
  simp only at h
  split at h
  · obtain rfl := Option.some.inj h
    exact S7Plc.Polls.refl plc
  · exact (S7Plc.Polls.setBlock plc area _).trans (readChunks_polls h)

end OipComms.S7
