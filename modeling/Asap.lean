import Asap.Lib.Run
import Asap.Framer.RoundTrip
import Asap.Framer.IeSafety
import Asap.Framer.IeFrames
import Asap.Lib.Bytes
import Asap.Lib.Ring
import Asap.Tsch.Asn
import Asap.Tsch.SlotOperation
import Asap.Tsch.SlotClock
import Asap.Tsch.Sla
import Asap.Tsch.RingbufIndex
import Asap.Tsch.Channel
import Asap.Tsch.Queue
import Asap.Upa.Commit
import Asap.Upa.SlotUtility
import Asap.Upa.Admission
import Asap.Tsch.Schedule
import Asap.Tsch.LinkList
import Asap.Tsch.LinkCount
import Asap.Alice.Cells
import Asap.Lib.Dyadic
import Asap.Ost.TOffset
import Asap.Lib.Custody
import Asap.Tsch.Conservation
import Asap.Tsch.NextActiveLink
import Asap.Alice.TimeVarying
import Asap.Tsch.NbrTable
import Asap.Tsch.TimeSource
import Asap.Tsch.EbInput
import Asap.Tsch.Divisors
import Asap.Sixtop.Trans
import Asap.Sixtop.Lifetime
import Asap.Lib.ParentTree
import Asap.Lib.Buffer
import Asap.Ipv6.SourceRouting
import Asap.Ipv6.Uipbuf
import Asap.Rpl.SourceRoute
import Asap.Sixtop.Evolution
import Asap.Sixtop.ExactlyOnce
import Asap.Lib.Pool
import Asap.Ipv6.RouteTable
import Asap.Tsch.NbrRegistry
import Asap.Rpl.DaoAck
import Asap.Rpl.Trickle
import Asap.Rpl.Icmp6Safety
import Asap.Coap.Lossless
import Asap.Coap.ObserveRun
import Asap.Coap.TransactionMatching
import Asap.Ipv6.ReassRun
import Asap.Ipv6.Ds6NbrRun
import Asap.Antelope.MaxHeapRun
import Asap.Mpl.ConsistencyRun
import Asap.Resolv.NewdataSafety
import Asap.Ipv6.Resolution
import Asap.Antelope.AqlCondition
import Asap.Ip64.AddrMapRun
import Asap.Trickle.TimerRun
import Asap.Mpl.BuffersRun
import Asap.Coffee.MicroLog
import Asap.Rpl.Mrhof
import Asap.Tsch.BackupLink
import Asap.Rpl.DioOutput
import Asap.Ipv6.RouteSelection
import Asap.Sixtop.PktAccess
import Asap.Rpl.ExtHeaderRemove
import Asap.Upa.SlotGain
import Asap.Mac.MacSequence
import Asap.Tsch.LastEb
import Asap.Tsch.CellOptions
import Asap.Ost.SubsequentSchedule
import Asap.Ost.RxN
import Asap.Tsch.SlaLength
import Asap.Tsch.EbUpdate
import Asap.Dbt.Availability
import Asap.Ipv6.Checksum
import Asap.Antelope.InlineIndex
import Asap.Antelope.RangeDerivation
import Asap.Rpl.HbhUpdate
import Asap.Ipv6.ExtOptions
import Asap.Ipv6.Ds6Lists
import Asap.Tsch.Backoff
import Asap.Alice.SearchSafety
import Asap.Coap.Blockwise
import Asap.Ipv6.ErrorCalls
import Asap.Ipv6.ErrorOutput
import Asap.Snmp.Mib
import Asap.Snmp.Walk
import Asap.Resolv.NameCodec
import Asap.Lwm2m.FixedPoint
