import DmmrOrbit.Socket.Stamp

/-!
# Setting up a TCP connection

What `accept_thread` and `connect_tcp_server` do with the two records they get for a connection that
stands: the node, which `acceptNode` and `connectNode` fill, and the `tcp_node`.  Both write a few
fields of the `tcp_node` and leave the others as they find them in the pool; neither of them writes
`proto`, and neither of them touches the nodes of the receive slots.
-/

set_option autoImplicit false

namespace DmmrOrbit

/-- The assignments of `accept_thread` to the `tcp_node` it gets: `n` is the connection's node. -/
def acceptTcpNode (n : ℕ) (tn : TcpNode) : TcpNode :=
  { tn with
    node := some n
    nodeCount := tn.nodeCount + 1
    run := true
    recvManager := initNodeRecvManager tn.recvManager }

/-- Those of `connect_tcp_server`. -/
def connectTcpNode (node : TcpNode) (n : ℕ) (tn : TcpNode) : TcpNode :=
  { tn with
    node := some n
    linked := node.linked
    nodeCount := tn.nodeCount + 1
    run := true
    recvManager := initNodeRecvManager tn.recvManager }

/-- A connection that stands, with what the kernel reported about it.  `node` is the `tcp_node` of
the listener, or the one that `connect_tcp_server` was called with. -/
inductive TcpSetup
  | accept (node : TcpNode) (clientFd : ℤ) (clientAddr : ClientAddr)
  | connect (node : TcpNode) (sock : ℤ) (localAddr : Option ClientAddr)

namespace TcpSetup

/-- The connection's node, made of a slot of the node pool. -/
def node : TcpSetup → Node → Node
  | accept node clientFd clientAddr => acceptNode node clientFd clientAddr
  | connect node sock localAddr => connectNode node sock localAddr

/-- The connection's `tcp_node`, made of an entry of the pool. -/
def tcpNode : TcpSetup → ℕ → TcpNode → TcpNode
  | accept _ _ _ => acceptTcpNode
  | connect node _ _ => connectTcpNode node

def fd : TcpSetup → ℤ
  | accept _ clientFd _ => clientFd
  | connect _ sock _ => sock

variable (c : TcpSetup) (n : ℕ) (tn : TcpNode)

@[simp] theorem tcpNode_node : (c.tcpNode n tn).node = some n := by
  cases c <;> rfl

@[simp] theorem tcpNode_run : (c.tcpNode n tn).run = true := by
  cases c <;> rfl

@[simp] theorem tcpNode_proto : (c.tcpNode n tn).proto = tn.proto := by
  cases c <;> rfl

@[simp] theorem tcpNode_recvManager :
    (c.tcpNode n tn).recvManager = initNodeRecvManager tn.recvManager := by
  cases c <;> rfl

@[simp] theorem node_fd (slot : Node) : (c.node slot).fd = c.fd := by
  cases c with
  | accept node clientFd clientAddr =>
    simp only [TcpSetup.node, acceptNode, fd]
    split <;> rfl
  | connect node sock localAddr =>
    cases localAddr with
    | none => rfl
    | some a =>
      simp only [TcpSetup.node, connectNode, fd]
      split <;> rfl

end TcpSetup

end DmmrOrbit
