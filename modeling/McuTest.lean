import McuTest.Segmentation
import McuTest.Window
import McuTest.PcbLifetime
import McuTest.Teardown
import McuTest.PcbLeak
import McuTest.Disconnects
import McuTest.NullPcb
import McuTest.Isolation
import McuTest.Stream
import McuTest.QueueFifo
import McuTest.PacketRead
import McuTest.WritePath
import McuTest.PublishCb
import McuTest.CurrentPcb
import McuTest.PublishGate
import McuTest.RateLimits
import McuTest.Messages
import McuTest.Stabilizes
import McuTest.Link
import McuTest.Atomicity
import McuTest.BackPressure
import McuTest.Reset
import McuTest.TornUptime
