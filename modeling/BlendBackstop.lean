import BlendBackstop.Basic
import BlendBackstop.Storage
import BlendBackstop.Manager
import BlendBackstop.Run
import BlendBackstop.Spec
import BlendBackstop.RewardZone
import BlendBackstop.Distribution
import BlendBackstop.Allocator
import BlendBackstop.Eviction
import BlendBackstop.Conservation
import BlendBackstop.Overflow
import BlendBackstop.Rounding
import BlendBackstop.Attribution
import BlendBackstop.BackstopRate
import BlendBackstop.Indexes
