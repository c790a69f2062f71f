import EltexCourse.Guarantees.Chat.WireTexts
import EltexCourse.Guarantees.Chat.Departures
import EltexCourse.Guarantees.Chat.Framing
import EltexCourse.Guarantees.Chat.Accounting
import EltexCourse.Guarantees.Chat.MailboxDelivery
import EltexCourse.Guarantees.Chat.Delivery
import EltexCourse.Guarantees.Chat.Authors
import EltexCourse.Guarantees.Chat.Shutdown
import EltexCourse.Guarantees.Chat.ServerExit
import EltexCourse.Guarantees.Chat.Publication
import EltexCourse.Guarantees.Chat.Store
import EltexCourse.Guarantees.Pipeline.Wiring
import EltexCourse.Guarantees.Pipeline.Parsing
import EltexCourse.Guarantees.Pipeline.WholeLines
import EltexCourse.Guarantees.Abonents.Linked
import EltexCourse.Guarantees.Abonents.Array
import EltexCourse.Guarantees.Abonents.Ends
import EltexCourse.Guarantees.Abonents.Search
import EltexCourse.Guarantees.Abonents.Versions
import EltexCourse.Guarantees.Drivers.Replies
import EltexCourse.Guarantees.Drivers.Commands
import EltexCourse.Guarantees.Drivers.Status
import EltexCourse.Guarantees.Echo.Replies
import EltexCourse.Guarantees.Echo.Texts
import EltexCourse.Guarantees.Echo.SelfReplies
import EltexCourse.Guarantees.Echo.Isolation
import EltexCourse.Guarantees.FakeMc.Listing
import EltexCourse.Guarantees.FakeMc.ScratchNames
import EltexCourse.Guarantees.FakeMc.PathText
import EltexCourse.Guarantees.Warehouse.Stock
import EltexCourse.Guarantees.Warehouse.Finish
import EltexCourse.Guarantees.TimeServer.Queue
import EltexCourse.Foundations.Ownership
import EltexCourse.Guarantees.TimeServer.Threads
import EltexCourse.Guarantees.TimeServer.Slots
import EltexCourse.Guarantees.SimpleBash.Endings
import EltexCourse.Guarantees.Counter.Exact
import EltexCourse.Guarantees.EtherHeader.CheckSum
import EltexCourse.Guarantees.Matrix.Snail
import EltexCourse.Guarantees.Substr.Occurrence
import EltexCourse.Guarantees.Substr.Growth
import EltexCourse.Guarantees.Pipeline.Dispatch
import EltexCourse.Foundations.Ranking
import EltexCourse.Guarantees.Pipeline.Ends
import EltexCourse.Guarantees.Pipeline.Dataflow
import EltexCourse.Guarantees.Pipeline.Progress
import EltexCourse.Guarantees.Chat.FlagSlots
import EltexCourse.Guarantees.Counter.Split
import EltexCourse.Guarantees.TimeServer.FreeThread
import EltexCourse.Guarantees.SimpleBash.Tokens
import EltexCourse.Guarantees.DemoShm.Sections
import EltexCourse.Guarantees.DemoShm.SerialTexts
import EltexCourse.Guarantees.Binary.PrintNum
import EltexCourse.Guarantees.TimeServer.Rounds
import EltexCourse.Guarantees.Counter.Ending
import EltexCourse.Guarantees.RawHeader.Snifer
