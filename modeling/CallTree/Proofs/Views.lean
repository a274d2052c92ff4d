import CallTree.Proofs.Folding
import CallTree.Proofs.Layers

/-!
# Accounts as seen from the top

Reading an account walks down the frames and asks each of their workspaces. A workspace that
several internal calls share is asked several times and gives the same answer each time, so the
walk is a search through the rooms of the call stack: its workspaces, each with what its topmost
user has at hand. `Stands.storage_view` and `Stands.code_at` say so for slots and for code.
-/

namespace CallTree

namespace Layer

/-- The slots of an account that are at hand in a layer. -/
def slotsAt? (address : Address) (l : Layer) : Option Slots :=
  l.contents.slotsAt? l.contract address

/-- The code of an account that is at hand in a layer. -/
def codeAt? (address : Address) (l : Layer) : Option Bytes :=
  l.contents.accounts.code[address]?

end Layer

/-- The layers whose contents are in a workspace: of all that share one, the topmost. -/
def rooms : List Layer → List Layer
  | [] => []
  | l :: below => l :: if l.frame.home.isOwned then rooms below else (rooms below).tail

/-- The slots of an account as seen from the top of some layers. -/
def slotsSeen (world : World) (layers : List Layer) (address : Address) : Slots :=
  ((rooms layers).findSome? (Layer.slotsAt? address)).getD (world.storageOf address)

/-- The code of an account as seen from the top of some layers. -/
def codeSeen (world : World) (layers : List Layer) (address : Address) : Option Bytes :=
  (rooms layers).findSome? (Layer.codeAt? address) <|> world.code? address

variable {pool : Pool Workspace} {l : Layer} {below : List Layer} {saved : List Contents}

theorem rooms_own (h : l.frame.home.isOwned = true) : rooms (l :: below) = l :: rooms below := by
  simp [rooms, h]

theorem rooms_shared (h : l.frame.home.isOwned = false) :
    rooms (l :: below) = l :: (rooms below).tail := by
  simp [rooms, h]

theorem rooms_cons (l : Layer) (below : List Layer) :
    rooms (l :: below) = l :: (rooms (l :: below)).tail :=
  rfl

/-- Every room is a layer. -/
theorem mem_of_mem_rooms {layers : List Layer} : ∀ n ∈ rooms layers, n ∈ layers := by
  induction layers with
  | nil => simp [rooms]
  | cons l below ih =>
      intro n hn
      rw [rooms, List.mem_cons] at hn
      rcases hn with rfl | hn
      · exact List.mem_cons_self
      · refine List.mem_cons_of_mem _ (ih n ?_)
        split at hn
        · exact hn
        · exact List.mem_of_mem_tail hn

/-- Of the world, only the committed slots matter to the slots that are seen. -/
theorem slots_seen_congr {world world' : World} (h : world'.storage = world.storage)
    (layers : List Layer) : slotsSeen world' layers = slotsSeen world layers := by
  funext address
  simp [slotsSeen, World.storageOf, h]

/-- Of the world, only the committed codes matter to the code that is seen. -/
theorem code_seen_congr {world world' : World} (h : world'.code = world.code)
    (layers : List Layer) : codeSeen world' layers = codeSeen world layers := by
  funext address
  simp [codeSeen, World.code?, h]

theorem code_seen_cons (world : World) (l : Layer) (below : List Layer) (a : Address) :
    codeSeen world (l :: below) a =
      (l.codeAt? a <|> (rooms (l :: below)).tail.findSome? (Layer.codeAt? a) <|>
        world.code? a) := by
  rw [codeSeen, rooms_cons, List.findSome?_cons]
  cases l.codeAt? a <;> rfl

/-- What is below the topmost room depends on the handle of the topmost frame only. -/
theorem rooms_tail_congr {l' : Layer} (h : l'.frame.home = l.frame.home) :
    (rooms (l' :: below)).tail = (rooms (l :: below)).tail := by
  simp [rooms, h]

/-- A walk down the frames that asks each workspace is a search through the rooms. -/
theorem Chain.walk {β : Type} (look : Address → Contents → Option β)
    (go : List Frame → Except Fault (Option β)) (hend : go [] = .ok none)
    (hfound : ∀ f rest w found, pool.get? f.home.cell = some w →
      look f.call.contract w.contents = some found → go (f :: rest) = .ok (some found))
    (hmiss : ∀ f rest w, pool.get? f.home.cell = some w →
      look f.call.contract w.contents = none → go (f :: rest) = go rest)
    (h : Chain pool l below saved) :
    ∀ w, pool.get? l.cell = some w → go (l.frame :: below.map (·.frame)) =
      .ok ((⟨l.frame, w.contents⟩ :: (rooms (l :: below)).tail).findSome?
        fun m => look m.contract m.contents) := by
  induction h with
  | @root l howned _ =>
      intro w hget
      rw [rooms_own howned, List.findSome?_cons]
      cases hlook : look l.frame.call.contract w.contents with
      | some found => simp [hfound _ _ w found hget hlook, Layer.contract, hlook]
      | none => simp [hmiss _ _ w hget hlook, hend, Layer.contract, hlook, rooms]
  | @internal l parent below saved _ _ hshare _ hcontract _ _ ih =>
      intro w hget
      have hshared : l.frame.home.isOwned = false := by rw [hshare]; rfl
      have hcell : parent.cell = l.cell := by rw [Layer.cell, Layer.cell, hshare]; rfl
      rw [rooms_shared hshared, List.findSome?_cons]
      cases hlook : look l.frame.call.contract w.contents with
      | some found => simp [hfound _ _ w found hget hlook, Layer.contract, hlook]
      | none =>
          -- The frame below gives the same answer once more.
          have hparent : look parent.frame.call.contract w.contents = none := by
            rw [← hlook]
            exact congrArg (look · w.contents) hcontract.symm
          rw [hmiss _ _ w hget hlook, List.map_cons, ih w (hcell ▸ hget), List.findSome?_cons]
          simp [Layer.contract, hlook, hparent]
  | @own l parent below saved _ _ hbacked howned _ _ _ ih =>
      intro w hget
      obtain ⟨v, hparent, hcontents, _⟩ := hbacked
      rw [rooms_own howned, List.findSome?_cons]
      cases hlook : look l.frame.call.contract w.contents with
      | some found => simp [hfound _ _ w found hget hlook, Layer.contract, hlook]
      | none =>
          rw [hmiss _ _ w hget hlook, List.map_cons, ih v hparent, hcontents]
          simp only [Layer.contract, hlook]
          rfl

namespace Stands

variable {c : Context}

/-- The slots of an account are those in the topmost room that has them, or the committed ones. -/
theorem storage_view (h : Stands c l below saved) (address : Address) :
    c.storageView address = .ok (slotsSeen c.world (l :: below) address) := by
  obtain ⟨w, hget, hcontents, _⟩ := h.backed
  have hwalk := h.chain.walk (fun own x => x.slotsAt? own address)
    (activeStorage? c.pool address) rfl ?_ ?_ w hget
  · rw [Context.storageView, h.frames, hwalk, hcontents]
    rfl
  · intro f rest w found hget hlook
    cases hpending : w.pending.accounts.storage[address]? with
    | some slots =>
        simp [Contents.slotsAt?, Workspace.contents, hpending] at hlook
        simp [activeStorage?, Pool.read, hget, Pending.storage?, hpending, bind, Except.bind, hlook]
    | none =>
        by_cases hown : f.call.contract = address
        · simp [Contents.slotsAt?, Workspace.contents, hpending, hown] at hlook
          simp [activeStorage?, Pool.read, hget, Pending.storage?, hpending, bind, Except.bind,
            hown, hlook]
        · simp [Contents.slotsAt?, Workspace.contents, hpending, hown] at hlook
  · intro f rest w hget hlook
    have hmiss : w.pending.accounts.storage[address]? = none ∧ ¬f.call.contract = address := by
      simpa [Contents.slotsAt?, Workspace.contents] using hlook
    simp [activeStorage?, Pool.read, hget, Pending.storage?, hmiss, bind, Except.bind]

/-- The code of an account is that in the topmost room that has it, or the committed one. -/
theorem code_at (h : Stands c l below saved) (address : Address) :
    c.codeAt address = .ok ((codeSeen c.world (l :: below) address).getD ByteArray.empty) := by
  obtain ⟨w, hget, hcontents, _⟩ := h.backed
  have hwalk := h.chain.walk (fun _ x => x.accounts.code[address]?)
    (pendingCode? c.pool address) rfl ?_ ?_ w hget
  · rw [Context.codeAt, h.frames, hwalk, hcontents]
    show Except.ok (((rooms (l :: below)).findSome? (Layer.codeAt? address)).getD _) = _
    rw [codeSeen]
    cases (rooms (l :: below)).findSome? (Layer.codeAt? address) <;> simp
  · intro f rest w found hget hlook
    have hcode : w.pending.accounts.code[address]? = some found := hlook
    simp [pendingCode?, Pool.read, hget, Pending.code?, hcode, bind, Except.bind]
  · intro f rest w hget hlook
    have hcode : w.pending.accounts.code[address]? = none := hlook
    simp [pendingCode?, Pool.read, hget, Pending.code?, hcode, bind, Except.bind]

end Stands
end CallTree
