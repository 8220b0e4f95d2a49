import McuTest.SwTimer
import McuTest.Transport

/-! The main loop of mcu_test.c, one statement at a time. SysTick interrupts
and lwIP callbacks may come between any two statements; inside a umqtt call the
library may use the transport functions. -/

namespace McuTest

inductive AppState where
  | waitIp
  | waitNet
  | waitMqtt
  | runMqtt
  | recovery
  | delay
  deriving DecidableEq

inductive UmqttError where
  | ok
  | connected
  | other (code : Nat)
  deriving DecidableEq

structure App where
  netWasDisconnected : Bool := false
  deriving DecidableEq

def netEventCb : NetClientEvent → App → App
  | .disconnected, _ => { netWasDisconnected := true }
  | _, app => app

def msPerTick : UInt32 := 10

def ticksPerSecond : UInt32 := 100

def serverAddr : IpAddr := ⟨10, 0, 0, 12⟩

def serverPort : UInt16 := 1883

/-- What `SysTickHandler` counts; `elapsed` is the number of its calls, which
does not wrap. -/
structure Clock where
  timers : SwTicks := { msPerTick := msPerTick }
  msTicks : UInt32 := 0
  subseconds : UInt32 := 0
  upTime : UInt32 := 0
  elapsed : Nat := 0
  deriving DecidableEq

/-- `SysTickHandler`. What `lwIPTimer` makes lwIP do are events of their own. -/
def sysTickHandler (c : Clock) : Clock where
  timers := SwTimer.tick c.timers
  msTicks := c.msTicks + msPerTick
  subseconds := if c.subseconds + 1 = ticksPerSecond then 0 else c.subseconds + 1
  upTime := if c.subseconds + 1 = ticksPerSecond then c.upTime + 1 else c.upTime
  elapsed := c.elapsed + 1

inductive Report where
  | status
  | mac
  | ip (addr : UInt32)
  | uptime (seconds : UInt32)
  deriving DecidableEq

inductive MainCall where
  | netConnect (ret : Int)
  | netIsConnected (ret : Bool)
  | netDisconnect
  | umqttConnect (err : UmqttError)
  | umqttGetConnectedStatus (err : UmqttError)
  | umqttSubscribe
  | umqttPublish (what : Report)
  | umqttRun (ms : UInt32) (err : UmqttError)
  | umqttDisconnect
  | reportTimedOut
  deriving DecidableEq

/-- The statements of the loop, named after what each does. `top` tests
`netWasDisconnected` and `dispatch` is the switch. -/
inductive Pc where
  | top
  | clearDisconnected
  | testDelay
  | resetState
  | dispatch
  | getIpAddr
  | testIpAddr
  | netConnect
  | testRet
  | setWaitNet
  | setRecovery
  | testConnected
  | umqttConnect
  | testConnectErr
  | setWaitMqtt
  | getConnectedStatus
  | testStatus
  | setRunMqtt
  | umqttSubscribe
  | publishStatus
  | publishMac
  | publishIp
  | umqttRun
  | testRunErr
  | setRunRecovery
  | testReport
  | armReport
  | publishUptime
  | umqttDisconnect
  | netDisconnect
  | armError
  | setDelay
  | testError
  | setWaitIp
  deriving DecidableEq

/-- The statement is a call into umqtt that may read and write. -/
def Pc.inUmqtt : Pc → Bool
  | .umqttConnect | .umqttSubscribe | .publishStatus | .publishMac | .publishIp | .umqttRun
  | .publishUptime | .umqttDisconnect => true
  | _ => false

structure Main where
  net : Transport netclientQueueSize App
  pc : Pc := .top
  runState : AppState := .waitIp
  ipAddr : UInt32 := 0
  ret : Int := 0
  err : UmqttError := .ok
  clock : Clock
  upTimeReportTimer : SwTimer
  errorTimer : SwTimer := {}
  calls : List (Nat × MainCall) := []

structure Answers where
  ipAddr : UInt32 := 0
  avail : Bool := true
  connErr : ErrT := .ok
  closeErr : ErrT := .ok
  err : UmqttError := .ok
  deriving DecidableEq

inductive MainEvent where
  | exec (ans : Answers)
  | transport (e : TransportEvent)
  | lwip (e : LwipEvent)
  | sysTick
  deriving DecidableEq

/-- The state of `main` when it enters the loop. The interrupts have been
running for a while, so the counters are arbitrary. -/
def Main.init (clock : Clock) : Main where
  net := Transport.init netEventCb {}
  clock := { clock with timers := SwTimer.setMsPerTick clock.timers msPerTick }
  upTimeReportTimer := SwTimer.setTimeout (SwTimer.setMsPerTick clock.timers msPerTick) 5000

namespace Main

def goto (s : Main) (pc : Pc) : Main :=
  { s with pc := pc }

def setState (s : Main) (runState : AppState) (pc : Pc) : Main :=
  { s with runState := runState, pc := pc }

def call (s : Main) (c : MainCall) (pc : Pc) : Main :=
  { s with calls := s.calls ++ [(s.clock.elapsed, c)], pc := pc }

def world (s : Main) : World netclientQueueSize App :=
  s.net.world

def setWorld (s : Main) (w : World netclientQueueSize App) : Main :=
  { s with net := { s.net with world := w } }

def disconnected (s : Main) : Bool :=
  s.world.app.netWasDisconnected

end Main

def netConnectCall (ans : Answers) : ApiCall :=
  .connect serverAddr serverPort ans.avail ans.connErr ans.closeErr

def exec (s : Main) (ans : Answers) : Main :=
  match s.pc with
  | .top => if s.disconnected then s.goto .clearDisconnected else s.goto .dispatch
  | .clearDisconnected =>
    (s.setWorld { s.world with app := { netWasDisconnected := false } }).goto .testDelay
  | .testDelay => if s.runState ≠ .delay then s.goto .resetState else s.goto .dispatch
  | .resetState => s.setState .recovery .dispatch
  | .dispatch =>
    match s.runState with
    | .waitIp => s.goto .getIpAddr
    | .waitNet => s.goto .testConnected
    | .waitMqtt => s.goto .getConnectedStatus
    | .runMqtt => s.goto .umqttRun
    | .recovery => s.goto .umqttDisconnect
    | .delay => s.goto .testError
  -- STATE_WAIT_IP
  | .getIpAddr => { s with ipAddr := ans.ipAddr, pc := .testIpAddr }
  | .testIpAddr => if s.ipAddr ≠ 0 then s.goto .netConnect else s.goto .top
  | .netConnect =>
    let ret := (Net.connect s.world .inst serverAddr serverPort ans.avail ans.connErr
      ans.closeErr).1
    { (s.setWorld (callStep s.world (netConnectCall ans))).call (.netConnect ret) .testRet with
      ret := ret }
  | .testRet => if s.ret = 0 then s.goto .setWaitNet else s.goto .setRecovery
  | .setWaitNet => s.setState .waitNet .top
  | .setRecovery => s.setState .recovery .top
  -- STATE_WAIT_NET
  | .testConnected =>
    let ret := Net.isConnected s.world .inst
    s.call (.netIsConnected ret) (if ret then .umqttConnect else .top)
  | .umqttConnect => { s.call (.umqttConnect ans.err) .testConnectErr with err := ans.err }
  | .testConnectErr => if s.err = .ok then s.goto .setWaitMqtt else s.goto .setRecovery
  | .setWaitMqtt => s.setState .waitMqtt .top
  -- STATE_WAIT_MQTT, which falls through into STATE_RUN_MQTT
  | .getConnectedStatus =>
    { s.call (.umqttGetConnectedStatus ans.err) .testStatus with err := ans.err }
  | .testStatus => if s.err = .connected then s.goto .setRunMqtt else s.goto .umqttRun
  | .setRunMqtt => s.setState .runMqtt .umqttSubscribe
  | .umqttSubscribe => s.call .umqttSubscribe .publishStatus
  | .publishStatus => s.call (.umqttPublish .status) .publishMac
  | .publishMac => s.call (.umqttPublish .mac) .publishIp
  | .publishIp => s.call (.umqttPublish (.ip s.ipAddr)) .umqttRun
  -- STATE_RUN_MQTT
  | .umqttRun => { s.call (.umqttRun s.clock.msTicks ans.err) .testRunErr with err := ans.err }
  | .testRunErr => if s.err ≠ .ok then s.goto .setRunRecovery else s.goto .testReport
  | .setRunRecovery => s.setState .recovery .testReport
  | .testReport =>
    if SwTimer.isTimedOut s.clock.timers s.upTimeReportTimer then
      s.call .reportTimedOut .armReport
    else s.goto .top
  | .armReport =>
    { s with upTimeReportTimer := SwTimer.setTimeout s.clock.timers 5000, pc := .publishUptime }
  | .publishUptime => s.call (.umqttPublish (.uptime s.clock.upTime)) .top
  -- STATE_RECOVERY
  | .umqttDisconnect => s.call .umqttDisconnect .netDisconnect
  | .netDisconnect =>
    (s.setWorld (callStep s.world (.disconnect ans.closeErr))).call .netDisconnect .armError
  | .armError => { s with errorTimer := SwTimer.setTimeout s.clock.timers 3000, pc := .setDelay }
  | .setDelay => s.setState .delay .top
  -- STATE_DELAY
  | .testError =>
    if SwTimer.isTimedOut s.clock.timers s.errorTimer then s.goto .setWaitIp else s.goto .top
  | .setWaitIp => s.setState .waitIp .top

/-- umqtt reaches the network through `netReadPacket` and `netWritePacket` only. -/
def TransportEvent.byUmqtt : TransportEvent → Bool
  | .peek | .copy | .allocFail | .call (.writePacket _ _ _ _) => true
  | _ => false

/-- A call into umqtt does not end inside `netReadPacket`. -/
def mainStep (s : Main) : MainEvent → Option Main
  | .exec ans => if s.net.peeked = none then some (exec s ans) else none
  | .transport e =>
    if s.pc.inUmqtt = true ∧ e.byUmqtt = true then
      (transportStep s.net e).map fun t => { s with net := t }
    else none
  | .lwip e => (lwipStep s.world e).map fun w => s.setWorld w
  | .sysTick => some { s with clock := sysTickHandler s.clock }

end McuTest
