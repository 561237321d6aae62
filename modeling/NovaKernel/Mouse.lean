import NovaKernel.Common

set_option autoImplicit false

namespace NovaKernel

structure Mouse where
  x : Int
  y : Int
  buttons : Byte
  prev : Byte
  pkt0 : Byte
  pkt1 : Byte
  pkt2 : Byte
  cycle : Nat
  enabled : Bool

namespace Mouse

/-- `v` limited to `0 .. high` by two tests. -/
def clamp (v high : Int) : Int :=
  let v := if v < 0 then 0 else v
  if high < v then high else v

def mouseProcess (m : Mouse) : Mouse :=
  let dx := m.pkt1.toInt
  let dy := -m.pkt2.toInt
  { m with x := clamp (m.x + dx) 319, y := clamp (m.y + dy) 199, buttons := m.pkt0 &&& 0x07 }

def mouseHandler (m : Mouse) (d : Byte) : Mouse :=
  if m.enabled then
    match m.cycle with
    | 0 => { m with pkt0 := d, cycle := 1 }
    | 1 => { m with pkt1 := d, cycle := 2 }
    | 2 => { m with pkt2 := d, cycle := 0 }.mouseProcess
    | _ => { m with cycle := 0 }
  else m

/-- Interrupts that arrive before the program goes on, one byte each. -/
def receive (m : Mouse) (bytes : List Byte) : Mouse :=
  bytes.foldl mouseHandler m

def leftDown (m : Mouse) : Bool := m.buttons.getLsbD 0

-- Both edge detectors consume the edge.
def leftClicked (m : Mouse) : Bool × Mouse :=
  (m.buttons.getLsbD 0 && !m.prev.getLsbD 0, { m with prev := m.buttons })

def leftReleased (m : Mouse) : Bool × Mouse :=
  (!m.buttons.getLsbD 0 && m.prev.getLsbD 0, { m with prev := m.buttons })

structure Arrivals where
  click : List Byte
  release : List Byte
  down : List Byte
  mx : List Byte
  my : List Byte

structure Input where
  click : Bool
  release : Bool
  down : Bool
  mx : Int
  my : Int

def snapshot (m : Mouse) (a : Arrivals) : Input × Mouse :=
  let (click, m) := (m.receive a.click).leftClicked
  let (release, m) := (m.receive a.release).leftReleased
  let m := m.receive a.down
  let down := m.leftDown
  let m := m.receive a.mx
  let mx := m.x
  let m := m.receive a.my
  (⟨click, release, down, mx, m.y⟩, m)

end Mouse

end NovaKernel
